import OfficeMath.Formula.Basic
import OfficeMath.Text.Alphabetic

/-!
# Symbols that single characters stand for

What a character means in a formula when it stands on its own.  Letters are identifiers; the
signs of `characterSymbols` and the delimiters of `delimiterCharacters` are symbols of the class
given there, some of them with a typographic glyph of their own; any other character beyond
ASCII is an ordinary symbol.  What is left, such as `&` or a control character, means nothing.

`Expr.ofChar?` puts these rules together.  The module also knows the glyphs of primes and which
glyphs are integrals.
-/

namespace OfficeMath

/-- A symbol as it appears in a formula: its class and its glyph. -/
structure Glyph where
  kind : SymbolClass
  text : String
  deriving DecidableEq, Repr

/-- The symbol as an expression. -/
def Glyph.expr (g : Glyph) : Expr := .symbol g.kind g.text

/-- The signs that stand for a symbol, with the glyph that is set for them. -/
def characterSymbols : List (Char × Glyph) := [
  ('+', ⟨.binary, "+"⟩), ('-', ⟨.binary, "\u2212"⟩), ('*', ⟨.binary, "\u2217"⟩),
  ('/', ⟨.ordinary, "/"⟩), ('=', ⟨.relation, "="⟩), ('<', ⟨.relation, "<"⟩),
  ('>', ⟨.relation, ">"⟩), (':', ⟨.relation, ":"⟩), (',', ⟨.punctuation, ","⟩),
  (';', ⟨.punctuation, ";"⟩), ('!', ⟨.ordinary, "!"⟩), ('?', ⟨.ordinary, "?"⟩),
  ('.', ⟨.ordinary, "."⟩), ('@', ⟨.ordinary, "@"⟩), ('"', ⟨.ordinary, "\u201d"⟩),
  ('\x60', ⟨.ordinary, "\u2018"⟩)]

/-- The delimiters that are written as a character of their own. -/
def delimiterCharacters : List (Char × Glyph) := [
  ('(', ⟨.opening, "("⟩), (')', ⟨.closing, ")"⟩), ('[', ⟨.opening, "["⟩), (']', ⟨.closing, "]"⟩),
  ('|', ⟨.fence, "|"⟩)]

/-- The delimiters that are written as a command, by the name of the command. -/
def delimiterCommands : List (String × Glyph) := [
  ("\x7b", ⟨.opening, "\x7b"⟩), ("\x7d", ⟨.closing, "\x7d"⟩), ("lbrace", ⟨.opening, "\x7b"⟩),
  ("rbrace", ⟨.closing, "\x7d"⟩), ("lbrack", ⟨.opening, "["⟩), ("rbrack", ⟨.closing, "]"⟩),
  ("langle", ⟨.opening, "⟨"⟩), ("rangle", ⟨.closing, "⟩"⟩), ("lvert", ⟨.opening, "|"⟩),
  ("rvert", ⟨.closing, "|"⟩), ("lVert", ⟨.opening, "‖"⟩), ("rVert", ⟨.closing, "‖"⟩),
  ("vert", ⟨.fence, "|"⟩), ("Vert", ⟨.fence, "‖"⟩), ("|", ⟨.fence, "‖"⟩),
  ("lfloor", ⟨.opening, "⌊"⟩), ("rfloor", ⟨.closing, "⌋"⟩), ("lceil", ⟨.opening, "⌈"⟩),
  ("rceil", ⟨.closing, "⌉"⟩), ("ulcorner", ⟨.opening, "⌜"⟩), ("urcorner", ⟨.closing, "⌝"⟩)]

/-- The symbol for a sign that is no delimiter. -/
def characterSymbol? (c : Char) : Option Glyph := characterSymbols.lookup c

/-- The delimiter written as this character. -/
def delimiterCharacter? (c : Char) : Option Glyph := delimiterCharacters.lookup c

/-- The delimiter written as the command of this name. -/
def delimiterCommand? (name : String) : Option Glyph := delimiterCommands.lookup name

/-- What a character stands for on its own, if it stands for anything. -/
def Expr.ofChar? (c : Char) : Option Expr :=
  if isAlphabetic c then some (.identifier (String.ofList [c]))
  else
    match characterSymbol? c <|> delimiterCharacter? c with
    | some glyph => some glyph.expr
    | none =>
      if c.toNat < 0x80 then none else some (.symbol .ordinary (String.ofList [c]))

/-- The glyph of a run of apostrophes: up to four have a glyph of their own, a longer run is
that many single primes. -/
def primeGlyph : Nat → String
  | 1 => "′"
  | 2 => "″"
  | 3 => "‴"
  | 4 => "⁗"
  | count => String.ofList (List.replicate count '′')

/-- The symbol of a run of apostrophes. -/
def Expr.primes (count : Nat) : Expr := .symbol .ordinary (primeGlyph count)

/-- The integral signs. -/
def integralGlyphs : List String := ["∫", "∬", "∭", "⨌", "∮", "∯", "∰", "∱", "∲", "∳"]

/-- Whether a glyph is an integral sign.  Integrals keep their scripts to the side. -/
def isIntegral (glyph : String) : Bool := integralGlyphs.contains glyph

end OfficeMath
