import OfficeMath.Latex.Reading

/-!
# Plain text in formulas

The argument of `\text` and its kin is text, taken as it stands but for a few rules: braces are
dropped, a backslash lets the character after it stand for itself, commands are dropped with a
note, `~` is a no-break space, and a run of blanks is one space.  A percent sign is an ordinary
character here.  The text ends at the brace that closes the argument.
-/

namespace OfficeMath.Reading

/-- Take the rest of a text argument.  `depth` braces are open inside it and `text` is what has
been collected, the last character first.  Each round takes at least one character, so that
`bound` rounds are enough if there are no more characters ahead. -/
def textFrom : (bound depth : Nat) → (text : List Char) → Reading String
  | 0, _, _ => unclosed .brace
  | bound + 1, depth, text => do
    match ← rest with
    | [] => unclosed .brace
    | c :: after =>
      let start ← offset
      advance 1
      if c = '}' then
        match depth with
        | 0 => return String.ofList text.reverse
        | depth + 1 => textFrom bound depth text
      else if c = '{' then textFrom bound (depth + 1) text
      else if c = '~' then textFrom bound depth ('\u00a0' :: text)
      else if c = '\\' then
        let name := commandName after
        advance name.length
        match name with
        | [] => textFrom bound depth text
        | escaped :: _ =>
          if escaped.isAlpha then
            note (.ignoredInText (String.ofList name) start)
            textFrom bound depth text
          else textFrom bound depth (escaped :: text)
      else if isBlank c then
        textFrom bound depth (if text.head? = some ' ' then text else ' ' :: text)
      else textFrom bound depth (c :: text)

/-- Take a text argument.  Without an opening brace it is the next character, if there is one. -/
def textArgument : Reading String := do
  skipLayout
  match ← rest with
  | [] => return ""
  | c :: after =>
    advance 1
    if c = '{' then textFrom after.length 0 []
    else return String.ofList [c]

end OfficeMath.Reading
