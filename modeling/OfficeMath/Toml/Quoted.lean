import OfficeMath.Toml.Digit

/-!
# Strings of TOML documents

A string stands between quotes, and either kind of quote may be tripled to let the string run
over several lines.  Between double quotes a backslash begins an escape; between single quotes
everything stands for itself.  Control characters other than the tab have to be escaped.
-/

namespace OfficeMath.Toml

/-- Whether a character may stand for itself in a string or in a comment. -/
def isPrintable (c : Char) : Bool :=
  c = '\t' || (0x20 ≤ c.toNat && c.toNat ≠ 0x7F)

/-- What follows a line end at the start of a text. -/
def afterLineEnd? : List Char → Option (List Char)
  | '\n' :: rest => some rest
  | '\r' :: '\n' :: rest => some rest
  | _ => none

/-- The character whose code the next `count` characters give, and what follows them. -/
def codePoint? (count : Nat) (text : List Char) : Option (Char × List Char) := do
  let front := text.take count
  if front.length ≠ count then none
  let code ← front.foldl (fun value c => do return 16 * (← value) + (← digitValue? 16 c)) (some 0)
  if code.isValidChar then some (Char.ofNat code, text.drop count) else none

/-- The character that an escape stands for, given the text after its backslash, and what follows
the escape. -/
def escape? : List Char → Option (Char × List Char)
  | [] => none
  | c :: rest =>
    match c with
    | 'b' => some ('\x08', rest)
    | 't' => some ('\t', rest)
    | 'n' => some ('\n', rest)
    | 'f' => some ('\x0c', rest)
    | 'r' => some ('\r', rest)
    | 'e' => some ('\x1b', rest)
    | '"' => some ('"', rest)
    | '\\' => some ('\\', rest)
    | 'x' => codePoint? 2 rest
    | 'u' => codePoint? 4 rest
    | 'U' => codePoint? 8 rest
    | _ => none

/-- The rest of a string on one line, after its opening quote, and what follows the string.  Each
round takes at least one character. -/
def lineFrom? (quote : Char) : (bound : Nat) → List Char → Option (List Char × List Char)
  | 0, _ => none
  | _, [] => none
  | bound + 1, c :: rest =>
    if c = quote then some ([], rest)
    else if c = '\\' && quote = '"' then do
      let (escaped, rest) ← escape? rest
      let (content, rest) ← lineFrom? quote bound rest
      return (escaped :: content, rest)
    else if isPrintable c then
      (lineFrom? quote bound rest).map fun (content, rest) => (c :: content, rest)
    else none

/-- What follows the blanks and line ends at the start of a text. -/
def afterBlanks : List Char → List Char
  | [] => []
  | ' ' :: rest => afterBlanks rest
  | '\t' :: rest => afterBlanks rest
  | '\n' :: rest => afterBlanks rest
  | '\r' :: '\n' :: rest => afterBlanks rest
  | rest => rest

/-- What follows a backslash at the end of a line, given the text after the backslash: the line
end and all blanks and line ends after it are left out. -/
def afterContinuation? (text : List Char) : Option (List Char) :=
  (afterLineEnd? (text.dropWhile fun c => c = ' ' || c = '\t')).map afterBlanks

/-- The rest of a string over several lines, after its opening quotes, and what follows the
string.  Up to two quotes right before the closing ones belong to the string.  Each round takes
at least one character. -/
def linesFrom? (quote : Char) : (bound : Nat) → List Char → Option (List Char × List Char)
  | 0, _ => none
  | _, [] => none
  | bound + 1, c :: rest =>
    let quotes := ((c :: rest).takeWhile (· = quote)).length
    if quotes ≥ 6 then none
    else if quotes ≥ 3 then some (List.replicate (quotes - 3) quote, (c :: rest).drop quotes)
    else if c = '\\' && quote = '"' then
      match afterContinuation? rest with
      | some rest => linesFrom? quote bound rest
      | none => do
        let (escaped, rest) ← escape? rest
        let (content, rest) ← linesFrom? quote bound rest
        return (escaped :: content, rest)
    else
      match afterLineEnd? (c :: rest) with
      | some rest =>
        (linesFrom? quote bound rest).map fun (content, rest) => ('\n' :: content, rest)
      | none =>
        if isPrintable c then
          (linesFrom? quote bound rest).map fun (content, rest) => (c :: content, rest)
        else none

/-- The string that begins with this quote, given the text after the quote, and what follows the
string. -/
def line? (quote : Char) (text : List Char) : Option (String × List Char) :=
  (lineFrom? quote text.length text).map fun (content, rest) => (String.ofList content, rest)

/-- The string over one or several lines that begins with this quote. -/
def string? (quote : Char) (text : List Char) : Option (String × List Char) :=
  match text with
  | first :: second :: rest =>
    if first = quote && second = quote then
      let rest := (afterLineEnd? rest).getD rest
      (linesFrom? quote rest.length rest).map fun (content, rest) => (String.ofList content, rest)
    else line? quote text
  | _ => line? quote text

end OfficeMath.Toml
