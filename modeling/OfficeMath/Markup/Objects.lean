import OfficeMath.Markup.BorderFlags
import OfficeMath.Markup.Glyphs
import OfficeMath.Markup.RunStyle

/-!
# The constructions of math markup

One function for every construction.  Each puts content that has been written already into the
slots of the construction and states its properties, all in the order that the markup demands.
-/

namespace OfficeMath.Markup

open Xml (Element)

/-- A slot of a construction, or any other element of math markup, with its content. -/
def slot (name : String) (content : List Element) : Element :=
  (Element.math name).withChildren content

/-- The value of a switch. -/
def onOff (value : Bool) : String := if value then "1" else "0"

/-- Where the limits of an n-ary operator stand. -/
inductive LimitLocation where
  | underOver
  | subSup
  deriving DecidableEq, Repr

/-- The code of a limit location. -/
def LimitLocation.code : LimitLocation → String
  | .underOver => "undOvr"
  | .subSup => "subSup"

/-- The side of the base on which a bar or a grouping character is drawn. -/
inductive Position where
  | top
  | bottom
  deriving DecidableEq, Repr

namespace Position

/-- The code of a position. -/
def code : Position → String
  | .top => "top"
  | .bottom => "bot"

/-- The other position. -/
def opposite : Position → Position
  | .top => .bottom
  | .bottom => .top

end Position

/-- The code of an alignment. -/
def alignmentCode : Alignment → String
  | .left => "left"
  | .center => "center"
  | .right => "right"

/-- The code of a kind of fraction. -/
def fractionCode : FractionStyle → String
  | .normal | .display => "bar"
  | .inline => "lin"
  | .noLine => "noBar"

/-- A symbol.  Operators and relations that are more than a single punctuation character stand in
a box, which makes them operators for whoever shows the formula. -/
def symbol (style : RunStyle) (kind : SymbolClass) (glyph : String) : Element :=
  if (kind = .operator || kind = .binary || kind = .relation) && !isPunctuation glyph then
    slot "box" [slot "boxPr" [.property "opEmu" (onOff true)], slot "e" [style.run glyph]]
  else style.run glyph

/-- A square root. -/
def sqrt (base : List Element) : Element :=
  slot "rad" [slot "radPr" [.property "degHide" (onOff true)], slot "deg" [], slot "e" base]

/-- A root with an index. -/
def root (index base : List Element) : Element := slot "rad" [slot "deg" index, slot "e" base]

/-- Content that takes room and is not shown. -/
def phantom (content : List Element) : Element :=
  slot "phant" [slot "phantPr" [.property "show" (onOff false)], slot "e" content]

/-- Content in a frame. -/
def boxed (content : List Element) : Element := slot "borderBox" [slot "e" content]

/-- The strokes of a cancelled expression, without the frame. -/
def cancelFlags (stroke : Stroke) : BorderFlags :=
  let strikes : List BorderFlag := match stroke with
    | .forward => [.strikeRising]
    | .back => [.strikeFalling]
    | .both => [.strikeRising, .strikeFalling]
  BorderFlags.hideAll.union (.ofList strikes)

/-- Content with strokes through it. -/
def cancelled (stroke : Stroke) (content : List Element) : Element :=
  let properties := (cancelFlags stroke).propertyNames.map fun name =>
    Element.property name (onOff true)
  slot "borderBox" [slot "borderBoxPr" properties, slot "e" content]

/-- A base with a subscript. -/
def subscript (base lower : List Element) : Element :=
  slot "sSub" [slot "e" base, slot "sub" lower]

/-- A base with a superscript. -/
def superscript (base upper : List Element) : Element :=
  slot "sSup" [slot "e" base, slot "sup" upper]

/-- A base with both scripts. -/
def bothScripts (base lower upper : List Element) : Element :=
  slot "sSubSup" [slot "e" base, slot "sub" lower, slot "sup" upper]

/-- A fraction. -/
def fraction (style : FractionStyle) (numerator denominator : List Element) : Element :=
  slot "f" [slot "fPr" [.property "type" (fractionCode style)], slot "num" numerator,
    slot "den" denominator]

/-- A bar above or below a base. -/
def bar (position : Position) (base : List Element) : Element :=
  slot "bar" [slot "barPr" [.property "pos" position.code], slot "e" base]

/-- An accent on a base. -/
def accent (mark : String) (base : List Element) : Element :=
  slot "acc" [slot "accPr" [.property "chr" mark], slot "e" base]

/-- A character stretched above or below a base. -/
def groupCharacter (mark : String) (position : Position) (base : List Element) : Element :=
  slot "groupChr" [
    slot "groupChrPr" [.property "chr" mark, .property "pos" position.code,
      .property "vertJc" position.opposite.code],
    slot "e" base]

/-- A base with a limit above it. -/
def upperLimit (base limit : List Element) : Element :=
  slot "limUpp" [slot "e" base, slot "lim" limit]

/-- A base with a limit below it. -/
def lowerLimit (base limit : List Element) : Element :=
  slot "limLow" [slot "e" base, slot "lim" limit]

/-- Set something above a base: a bar, an accent or a stretched character if it is the symbol of
one, and a limit otherwise.  `written` is what is set above, in markup. -/
def placeAbove (base : List Element) (above : Expr) (written : List Element) : Element :=
  match above with
  | .symbol kind glyph =>
    if barGlyphs.contains glyph then bar .top base
    else if kind = .accent then accent glyph base
    else if kind = .overMark then groupCharacter glyph .top base
    else upperLimit base written
  | _ => upperLimit base written

/-- Set something below a base, in the same way. -/
def placeBelow (base : List Element) (below : Expr) (written : List Element) : Element :=
  match below with
  | .symbol kind glyph =>
    if barGlyphs.contains glyph then bar .bottom base
    else if kind = .accent then accent glyph base
    else if kind = .underMark || kind = .lowAccent then groupCharacter glyph .bottom base
    else lowerLimit base written
  | _ => lowerLimit base written

/-- A delimited region: the parts between the separators, and the first separator if there is
one. -/
def delimited (opening closing : String) (separator : Option String)
    (parts : List (List Element)) : Element :=
  let properties := [Element.property "begChr" opening] ++
    (separator.map fun glyph => Element.property "sepChr" glyph).toList ++
    [.property "endChr" closing, slot "grow" []]
  slot "d" (slot "dPr" properties :: parts.map (slot "e"))

/-- An array: the alignment of its columns, and the cells of its rows. -/
def array (alignments : List Alignment) (rows : List (List (List Element))) : Element :=
  let column (alignment : Alignment) := slot "mc" [slot "mcPr" [.property "count" "1",
    .property "mcJc" (alignmentCode alignment)]]
  let columns := if alignments.isEmpty then [] else [slot "mcs" (alignments.map column)]
  slot "m" (slot "mPr" ([.property "baseJc" (alignmentCode .center),
      .property "plcHide" (onOff true)] ++ columns) ::
    rows.map fun cells => slot "mr" (cells.map (slot "e")))

/-- An n-ary operator with its operand.  A limit that is missing is hidden and its slot empty. -/
def nary (glyph : String) (location : LimitLocation) (lower upper : Option (List Element))
    (operand : List Element) : Element :=
  slot "nary" [
    slot "naryPr" [.property "chr" glyph, .property "limLoc" location.code,
      .property "subHide" (onOff lower.isNone), .property "supHide" (onOff upper.isNone)],
    slot "sub" (lower.getD []), slot "sup" (upper.getD []), slot "e" operand]

/-- The element of a whole formula. -/
def math (content : List Element) : Element := slot "oMath" content

/-- A formula that stands in a centred paragraph of its own. -/
def mathParagraph (formula : Element) : Element :=
  slot "oMathPara" [slot "oMathParaPr" [.property "jc" (alignmentCode .center)], formula]

end OfficeMath.Markup
