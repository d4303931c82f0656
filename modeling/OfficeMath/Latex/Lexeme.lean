import OfficeMath.Latex.Commands
import OfficeMath.Text.Blank

/-!
# Lexemes

How far the smallest pieces of a formula reach.  Each function looks at the remaining characters
and says which of them, or how many, belong to the piece that begins there:

* `layoutLength` — blanks and comments, which separate pieces and mean nothing;
* `commandName` — the name after a backslash;
* `numberLength` — a number;
* `primeCount` — a run of apostrophes;
* `before?` — everything up to a given character.

Nothing here reads or moves: these are functions of the text ahead.
-/

namespace OfficeMath

/-- The number of characters of layout at the start of a text that begins inside a comment, or
outside of one. -/
def layoutLengthFrom : (inComment : Bool) → List Char → Nat
  | _, [] => 0
  | true, c :: rest => 1 + layoutLengthFrom (c ≠ '\n') rest
  | false, c :: rest =>
    if isBlank c then 1 + layoutLengthFrom false rest
    else if c = '%' then 1 + layoutLengthFrom true rest
    else 0

/-- The number of characters of layout at the start of a text.  Layout consists of blanks and of
comments, which reach from `%` to the end of the line. -/
def layoutLength (text : List Char) : Nat := layoutLengthFrom false text

/-- The name of a command, given the text after its backslash.  A name is a run of ASCII letters
or else a single character.  A star right after the letters belongs to the name if there is a
starred command of that name; so it does in `\operatorname*`, while in `\phi*` it stays behind
as an operator.  Only at the end of the text is the name empty. -/
def commandName (text : List Char) : List Char :=
  match text.takeWhile Char.isAlpha with
  | [] => text.take 1
  | letters =>
    match text.drop letters.length with
    | '*' :: _ =>
      let starred := letters ++ ['*']
      if (command? (String.ofList starred)).isSome then starred else letters
    | _ => letters

/-- The name of the command that begins here, if one does. -/
def commandAt? : List Char → Option String
  | '\\' :: rest => some (String.ofList (commandName rest))
  | _ => none

/-- The number of digits at the start of a text. -/
def digitCount (text : List Char) : Nat := (text.takeWhile Char.isDigit).length

/-- The length of the number at the start of a text, zero if there is none.  A number is a run of
digits, perhaps with a decimal dot and more digits, or a dot with digits after it; a dot without
digits after it is no part of it. -/
def numberLength (text : List Char) : Nat :=
  let whole := digitCount text
  match text.drop whole with
  | '.' :: rest => if digitCount rest = 0 then whole else whole + 1 + digitCount rest
  | _ => whole

/-- The number of apostrophes at the start of a text. -/
def primeCount (text : List Char) : Nat := (text.takeWhile (· = '\x27')).length

/-- The characters before the next `mark`, if there is one. -/
def before? (mark : Char) : List Char → Option (List Char)
  | [] => none
  | c :: rest => if c = mark then some [] else (before? mark rest).map (c :: ·)

end OfficeMath
