import OfficeMath.Latex.Reading

/-!
# Delimiters

What may stand after `\left`, `\middle`, `\right` or a size command: a dot for no delimiter at
all, a command that is a delimiter or a symbol, or a character that is a delimiter or a sign.
-/

namespace OfficeMath

/-- The delimiter that begins a text, with the number of its characters. -/
def delimiterAt? : List Char → Option (Glyph × Nat)
  | [] => none
  | c :: after =>
    if c = '.' then some (⟨.opening, ""⟩, 1)
    else if c = '\\' then
      let letters := commandName after
      let name := String.ofList letters
      match delimiterCommand? name <|> (command? name).bind Command.glyph? with
      | some glyph => some (glyph, 1 + letters.length)
      | none => none
    else
      match delimiterCharacter? c <|> characterSymbol? c with
      | some glyph => some (glyph, 1)
      | none => none

namespace Reading

/-- Take the delimiter ahead, if there is one. -/
def delimiter? : Reading (Option Glyph) := do
  skipLayout
  match delimiterAt? (← rest) with
  | some (glyph, length) =>
    advance length
    return some glyph
  | none => return none

/-- The glyph of the delimiter that has to follow a command.  A missing one is noted and counts
as none. -/
def delimiterAfter (command : String) : Reading String := do
  match ← delimiter? with
  | some glyph => return glyph.text
  | none =>
    note (.missingDelimiter command (← offset))
    return ""

end Reading

end OfficeMath
