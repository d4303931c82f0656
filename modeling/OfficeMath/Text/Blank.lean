import OfficeMath.Text.CodeRange

/-!
# Blank characters

The Unicode property *White_Space*: the ASCII blanks and line ends, the next-line control, the
no-break space and the spaces and separators of the general punctuation block.  The zero-width
space is not among them.
-/

namespace OfficeMath

/-- The code points of the blank characters. -/
def blankRanges : List (Nat × Nat) := [
  (0x0009, 0x000D), (0x0020, 0x0020), (0x0085, 0x0085), (0x00A0, 0x00A0), (0x1680, 0x1680),
  (0x2000, 0x200A), (0x2028, 0x2029), (0x202F, 0x202F), (0x205F, 0x205F), (0x3000, 0x3000)]

/-- Whether a character is blank, that is, has the Unicode property *White_Space*. -/
def isBlank (c : Char) : Bool :=
  inRanges c.toNat blankRanges

/-- The text without the blanks at its two ends. -/
def trimBlank (text : List Char) : List Char :=
  ((text.dropWhile isBlank).reverse.dropWhile isBlank).reverse

end OfficeMath
