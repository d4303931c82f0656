import OfficeMath.Formula.Basic
import OfficeMath.Xml.Element

/-!
# The style of a run

A run is a stretch of text in one style.  Its style says whether it is plain text rather than
math, from which alphabet its letters are taken, and their face.  What a run does not say is left
to the program that shows the formula.

Styles nest.  The innermost style settles the face, and the innermost style that has an alphabet
settles the alphabet (`RunStyle.within`).
-/

namespace OfficeMath

/-- The face of letters. -/
inductive Face where
  | plain
  | bold
  | italic
  | boldItalic
  deriving DecidableEq, Repr

/-- The code of a face in markup. -/
def Face.code : Face → String
  | .plain => "p"
  | .bold => "b"
  | .italic => "i"
  | .boldItalic => "bi"

/-- An alphabet of letters other than the usual one. -/
inductive Alphabet where
  | monospace
  | sansSerif
  | doubleStruck
  | script
  | fraktur
  deriving DecidableEq, Repr

/-- The code of an alphabet in markup. -/
def Alphabet.code : Alphabet → String
  | .monospace => "monospace"
  | .sansSerif => "sans-serif"
  | .doubleStruck => "double-struck"
  | .script => "script"
  | .fraktur => "fraktur"

namespace TextStyle

/-- The face of a style. -/
def face : TextStyle → Face
  | .normal | .monospace | .sansSerif | .doubleStruck | .script | .fraktur => .plain
  | .bold | .sansSerifBold | .boldScript | .boldFraktur => .bold
  | .italic | .sansSerifItalic => .italic
  | .boldItalic | .sansSerifBoldItalic => .boldItalic

/-- The alphabet of a style, if it has one of its own. -/
def alphabet? : TextStyle → Option Alphabet
  | .normal | .bold | .italic | .boldItalic => none
  | .monospace => some .monospace
  | .sansSerif | .sansSerifBold | .sansSerifItalic | .sansSerifBoldItalic => some .sansSerif
  | .doubleStruck => some .doubleStruck
  | .script | .boldScript => some .script
  | .fraktur | .boldFraktur => some .fraktur

end TextStyle

/-- The style of a run. -/
structure RunStyle where
  isText : Bool
  alphabet : Option Alphabet
  face : Option Face
  deriving DecidableEq, Repr

namespace RunStyle

/-- The style of math outside of all styles. -/
def default : RunStyle := ⟨false, none, none⟩

/-- A style nested in another one. -/
def within (outer : RunStyle) (style : TextStyle) : RunStyle :=
  { outer with alphabet := style.alphabet?.or outer.alphabet, face := some style.face }

/-- The style of an operator name: upright, but in the alphabet around it. -/
def upright (outer : RunStyle) : RunStyle := { outer with face := some .plain }

/-- The style of plain text, which does not depend on the styles around it. -/
def ofText (style : TextStyle) : RunStyle := ⟨true, style.alphabet?, some style.face⟩

open Xml (Element)

/-- The properties that a style consists of. -/
def properties (style : RunStyle) : List Element :=
  (if style.isText then [.math "nor"] else []) ++
    (style.alphabet.map fun alphabet => .property "scr" alphabet.code).toList ++
    (style.face.map fun face => .property "sty" face.code).toList

/-- A run of text.  The style is left out if there is nothing to say. -/
def run (style : RunStyle) (text : String) : Element :=
  let properties := style.properties
  let opened := if properties.isEmpty then .math "r"
    else (Element.math "r").withChild ((Element.math "rPr").withChildren properties)
  opened.withChild ((Element.math "t").withText text)

end RunStyle

end OfficeMath
