import OfficeMath.Formula.Basic
import OfficeMath.Latex.Symbols
import OfficeMath.Text.Blank
import OfficeMath.Text.Numeric

/-!
# Glyphs that the markup treats in a way of its own

Some glyphs become a construction rather than a run: large operators that take an operand, and
marks that are drawn as a bar.  Spaces have no construction and become the blank character that
is nearest in width.
-/

namespace OfficeMath

/-- The blank that has no width.  It fills a run that would be empty. -/
def zeroWidthSpace : String := "\u200b"

/-- The glyphs of n-ary operators. -/
def naryGlyphs : List String :=
  ["∫", "∬", "∭", "⨌", "∮", "∯", "∰", "∱", "∲", "∳", "∏", "∐", "∑"]

/-- The glyphs that are drawn as a bar, not set as an accent. -/
def barGlyphs : List String := ["\u00af", "\u203e", "\u0305", "\u0332", "_"]

/-- The blank nearest to a width in ems.  Nothing that is not positive has a width. -/
def spaceGlyph (width : Float32) : String :=
  if width > 0 && width ≤ 0.17 then "\u2009"
  else if width > 0.17 && width ≤ 0.23 then "\u2005"
  else if width > 0.23 && width ≤ 0.5 then "\u2004"
  else if width > 0.5 && width ≤ 1.8 then "\u2001"
  else if width > 1.8 then "\u2001\u2001"
  else zeroWidthSpace

/-- Whether a glyph is a single character that is neither a letter nor a number nor a blank. -/
def isPunctuation (glyph : String) : Bool :=
  match glyph.toList with
  | [c] => !isAlphanumeric c && !isBlank c
  | _ => false

end OfficeMath
