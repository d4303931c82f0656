import OfficeMath.Markup.Nary

/-!
# Writing formulas as markup

Every expression becomes one construction of the markup, or a few in a row; nothing fails, and
what the markup cannot express, such as the size of a delimiter, is left out.  The style of a run
comes from the styled expressions around it.

* `write` gives the elements of an expression;
* `writeFormula` pairs the n-ary operators at the top level with their operands and puts the
  elements of the whole formula into the element that stands for it.  A displayed formula is a
  centred paragraph.
-/

namespace OfficeMath

open Xml (Element)

/-- The content of a limit of an n-ary operator.  An empty group is no limit. -/
def shownLimit (limit : Expr) (written : List Element) : Option (List Element) :=
  if limit.isEmptyGroup then none else some written

/-- The first separator of a delimited region. -/
def firstSeparator? : List Item → Option String
  | [] => none
  | .separator glyph :: _ => some glyph
  | .expr _ :: rest => firstSeparator? rest

mutual

/-- The elements of an expression. -/
def write (display : Display) (style : RunStyle) : Expr → List Element
  | .number text => [style.run text]
  | .identifier text => [style.run (if text.isEmpty then zeroWidthSpace else text)]
  | .symbol kind glyph => [Markup.symbol style kind glyph]
  | .text textStyle text => [(RunStyle.ofText textStyle).run text]
  | .space width => [style.run (spaceGlyph width)]
  | .operatorName name => [style.upright.run name]
  | .group members => writeGroup display style members
  | .sqrt base => [Markup.sqrt (write display style base)]
  | .root index base => [Markup.root (write display style index) (write display style base)]
  | .phantom inner => [Markup.phantom (write display style inner)]
  | .boxed inner => [Markup.boxed (write display style inner)]
  | .cancel stroke inner => [Markup.cancelled stroke (write display style inner)]
  | .scaled _ inner => write display style inner
  | .sub base lower => [Markup.subscript (write display style base) (write display style lower)]
  | .super base upper =>
    [Markup.superscript (write display style base) (write display style upper)]
  | .subSup base lower upper =>
    [Markup.bothScripts (write display style base) (write display style lower)
      (write display style upper)]
  | .fraction kind numerator denominator =>
    [Markup.fraction kind (write display style numerator) (write display style denominator)]
  | .over movable base above =>
    let base := write display style base
    let written := write display style above
    if movable && display = .inline then [Markup.superscript base written]
    else [Markup.placeAbove base above written]
  | .under movable base below =>
    let base := write display style base
    let written := write display style below
    if movable && display = .inline then [Markup.subscript base written]
    else [Markup.placeBelow base below written]
  | .underOver movable base below above =>
    let base := write display style base
    let writtenBelow := write display style below
    let writtenAbove := write display style above
    if movable && display = .inline then [Markup.bothScripts base writtenBelow writtenAbove]
    else [Markup.placeAbove [Markup.placeBelow base below writtenBelow] above writtenAbove]
  | .delimited opening closing content =>
    let (first, others) := writeParts display style content
    [Markup.delimited opening closing (firstSeparator? content) (first :: others)]
  | .array alignments rows => [Markup.array alignments (writeRows display style rows)]
  | .styled inner members => writeAll display (style.within inner) members

/-- The elements of a list of expressions in a row. -/
def writeAll (display : Display) (style : RunStyle) : List Expr → List Element
  | [] => []
  | e :: rest => write display style e ++ writeAll display style rest

/-- The elements of a group.  An empty group is a run without width; in a group of two, an n-ary
operator takes the other member as its operand. -/
def writeGroup (display : Display) (style : RunStyle) : List Expr → List Element
  | [] => [style.run zeroWidthSpace]
  | [e] => write display style e
  | [first, second] =>
    match first.naryHead? display with
    | some head =>
      let (lower, upper) := writeLimits display style first
      [Markup.nary head.glyph head.location lower upper (write display style second)]
    | none => write display style first ++ write display style second
  | first :: second :: third :: rest =>
    write display style first ++ write display style second ++ write display style third ++
      writeAll display style rest

/-- The limits of an n-ary operator that are shown, the lower one first. -/
def writeLimits (display : Display) (style : RunStyle) :
    Expr → Option (List Element) × Option (List Element)
  | .under _ _ lower | .sub _ lower => (shownLimit lower (write display style lower), none)
  | .over _ _ upper | .super _ upper => (none, shownLimit upper (write display style upper))
  | .underOver _ _ lower upper | .subSup _ lower upper =>
    (shownLimit lower (write display style lower), shownLimit upper (write display style upper))
  | _ => (none, none)

/-- The parts of a delimited region between its separators, the first one apart. -/
def writeParts (display : Display) (style : RunStyle) :
    List Item → List Element × List (List Element)
  | [] => ([], [])
  | .separator _ :: rest =>
    let (first, others) := writeParts display style rest
    ([], first :: others)
  | .expr e :: rest =>
    let (first, others) := writeParts display style rest
    (write display style e ++ first, others)

/-- The cells of the rows of an array. -/
def writeRows (display : Display) (style : RunStyle) :
    List (List (List Expr)) → List (List (List Element))
  | [] => []
  | row :: rest => writeCells display style row :: writeRows display style rest

/-- The cells of a row. -/
def writeCells (display : Display) (style : RunStyle) : List (List Expr) → List (List Element)
  | [] => []
  | cell :: rest => writeAll display style cell :: writeCells display style rest

end

/-- The elements of a member of a formula. -/
def Member.write (display : Display) : Member → List Element
  | .single e => OfficeMath.write display .default e
  | .applied head operator operand =>
    let (lower, upper) := writeLimits display .default operator
    [Markup.nary head.glyph head.location lower upper
      (OfficeMath.write display .default operand)]

/-- The elements of a formula, its n-ary operators with their operands. -/
def writeMembers (display : Display) (formula : Formula) : List Element :=
  (pairOperands display formula).flatMap (Member.write display)

/-- A formula as an element. -/
def writeFormula (display : Display) (formula : Formula) : Element :=
  let math := Markup.math (writeMembers display formula)
  match display with
  | .inline => math
  | .block => Markup.mathParagraph math

end OfficeMath
