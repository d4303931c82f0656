import OfficeMath.Proofs.Markup.Pieces

/-!
# The scope of a style

A style reaches every leaf inside the styled expression, through whatever constructions stand
between the two, and nothing outside of it.  To say so without the writer, a leaf is taken out of
its formula together with the styles around it, the innermost first (`Leaf`).  Three things settle
what its run says, and nothing else does:

* the innermost style settles the face, and the innermost style that has an alphabet settles the
  alphabet (`Leaf.face?`, `Leaf.alphabet?`);
* an operator name is upright in the alphabet around it;
* a text goes by its own style alone, and only a text says that it is none of math.

`Expr.shownLeaves` lists the leaves that are written as runs.  Most are; those that are not have
become the character of a construction, as the sign of a sum has, or have been left out, as an
empty limit is.  `runs_writeFormula` says that the runs of a formula are the runs of these leaves,
one by one and in the same order.
-/

namespace OfficeMath

open Xml (Element Node Name)

/-! ## Leaves and their styles -/

/-- A leaf of a formula, or the empty group in place of one, with the styles that it stands in, the
innermost first. -/
structure Leaf where
  styles : List TextStyle
  expr : Expr

namespace Leaf

/-- The text that a leaf shows. -/
def shown (leaf : Leaf) : String :=
  match leaf.expr with
  | .number text | .symbol _ text | .text _ text | .operatorName text => text
  | .identifier text => if text.isEmpty then zeroWidthSpace else text
  | .space width => spaceGlyph width
  | _ => zeroWidthSpace

/-- Whether a leaf is plain text. -/
def isText (leaf : Leaf) : Bool :=
  match leaf.expr with
  | .text _ _ => true
  | _ => false

/-- The face of a leaf: that of the innermost style, if there is any style. -/
def face? (leaf : Leaf) : Option Face :=
  match leaf.expr with
  | .text style _ => some style.face
  | .operatorName _ => some .plain
  | _ => leaf.styles.head?.map TextStyle.face

/-- The alphabet of a leaf: that of the innermost style which has one. -/
def alphabet? (leaf : Leaf) : Option Alphabet :=
  match leaf.expr with
  | .text style _ => style.alphabet?
  | _ => leaf.styles.findSome? TextStyle.alphabet?

/-- A run shows a leaf: it has the text of the leaf, and its properties say what the styles of the
leaf say and no more.  Where they say nothing the run has no properties. -/
structure ShownBy (leaf : Leaf) (run : Element) : Prop where
  text : run.textContent = leaf.shown
  isText : ((run.child? "rPr").bind (·.child? "nor")).isSome = leaf.isText
  face : run.setting? "rPr" "sty" = leaf.face?.map Face.code
  alphabet : run.setting? "rPr" "scr" = leaf.alphabet?.map Alphabet.code
  bare : run.child? "rPr" = none ↔ leaf.face? = none

end Leaf

/-- Whether an expression is a mark that is drawn above a base and not written there. -/
def Expr.isMarkAbove : Expr → Bool
  | .symbol kind glyph => barGlyphs.contains glyph || kind = .accent || kind = .overMark
  | _ => false

/-- Whether an expression is a mark that is drawn below a base and not written there. -/
def Expr.isMarkBelow : Expr → Bool
  | .symbol kind glyph =>
    barGlyphs.contains glyph || kind = .accent || kind = .underMark || kind = .lowAccent
  | _ => false

/-- Leaves that are shown unless they are absorbed by the construction they stand in. -/
def leavesUnless (absorbed : Bool) (leaves : List Leaf) : List Leaf :=
  if absorbed then [] else leaves

mutual

/-- The leaves of an expression that are written as runs, from left to right, each with the styles
around it.  An empty group counts as one. -/
def Expr.shownLeaves (display : Display) (styles : List TextStyle) : Expr → List Leaf
  | e@(.number _) | e@(.identifier _) | e@(.symbol _ _) | e@(.text _ _) | e@(.space _)
  | e@(.operatorName _) => [⟨styles, e⟩]
  | .group members => shownLeavesOfGroup display styles members
  | .sqrt inner | .phantom inner | .boxed inner | .cancel _ inner | .scaled _ inner =>
    inner.shownLeaves display styles
  | .root first second | .sub first second | .super first second | .fraction _ first second =>
    first.shownLeaves display styles ++ second.shownLeaves display styles
  | .subSup first second third =>
    first.shownLeaves display styles ++ second.shownLeaves display styles
      ++ third.shownLeaves display styles
  | .over movable base above =>
    base.shownLeaves display styles
      ++ leavesUnless (!(movable && display = .inline) && above.isMarkAbove)
        (above.shownLeaves display styles)
  | .under movable base below =>
    base.shownLeaves display styles
      ++ leavesUnless (!(movable && display = .inline) && below.isMarkBelow)
        (below.shownLeaves display styles)
  | .underOver movable base below above =>
    base.shownLeaves display styles
      ++ leavesUnless (!(movable && display = .inline) && below.isMarkBelow)
        (below.shownLeaves display styles)
      ++ leavesUnless (!(movable && display = .inline) && above.isMarkAbove)
        (above.shownLeaves display styles)
  | .delimited _ _ content => shownLeavesOfItems display styles content
  | .array _ rows => shownLeavesOfRows display styles rows
  | .styled style members => shownLeavesOf display (style :: styles) members

/-- The shown leaves of a list of expressions. -/
def shownLeavesOf (display : Display) (styles : List TextStyle) : List Expr → List Leaf
  | [] => []
  | e :: rest => e.shownLeaves display styles ++ shownLeavesOf display styles rest

/-- The shown leaves of a group.  In a group of two, an n-ary operator shows its limits alone. -/
def shownLeavesOfGroup (display : Display) (styles : List TextStyle) : List Expr → List Leaf
  | [] => [⟨styles, .empty⟩]
  | [e] => e.shownLeaves display styles
  | [first, second] =>
    (if (first.naryHead? display).isSome then first.limitLeaves display styles
      else first.shownLeaves display styles) ++ second.shownLeaves display styles
  | first :: second :: third :: rest =>
    first.shownLeaves display styles ++ second.shownLeaves display styles
      ++ third.shownLeaves display styles ++ shownLeavesOf display styles rest

/-- The shown leaves of the limits of an n-ary operator, of which an empty one is hidden. -/
def Expr.limitLeaves (display : Display) (styles : List TextStyle) : Expr → List Leaf
  | .under _ _ limit | .sub _ limit | .over _ _ limit | .super _ limit =>
    leavesUnless limit.isEmptyGroup (limit.shownLeaves display styles)
  | .underOver _ _ lower upper | .subSup _ lower upper =>
    leavesUnless lower.isEmptyGroup (lower.shownLeaves display styles)
      ++ leavesUnless upper.isEmptyGroup (upper.shownLeaves display styles)
  | _ => []

/-- The shown leaves of a delimited region. -/
def shownLeavesOfItems (display : Display) (styles : List TextStyle) : List Item → List Leaf
  | [] => []
  | .separator _ :: rest => shownLeavesOfItems display styles rest
  | .expr e :: rest => e.shownLeaves display styles ++ shownLeavesOfItems display styles rest

/-- The shown leaves of the rows of an array. -/
def shownLeavesOfRows (display : Display) (styles : List TextStyle) :
    List (List (List Expr)) → List Leaf
  | [] => []
  | row :: rest => shownLeavesOfCells display styles row ++ shownLeavesOfRows display styles rest

/-- The shown leaves of the cells of a row. -/
def shownLeavesOfCells (display : Display) (styles : List TextStyle) :
    List (List Expr) → List Leaf
  | [] => []
  | cell :: rest => shownLeavesOf display styles cell ++ shownLeavesOfCells display styles rest

end

/-- The shown leaves of a member of a formula, which stands in no style. -/
def Member.shownLeaves (display : Display) : Member → List Leaf
  | .single e => e.shownLeaves display []
  | .applied _ operator operand =>
    operator.limitLeaves display [] ++ operand.shownLeaves display []

/-- The shown leaves of a formula. -/
def shownLeaves (display : Display) (formula : Formula) : List Leaf :=
  (pairOperands display formula).flatMap (Member.shownLeaves display)

/-! ## The run of a leaf -/

/-- The style of runs inside of styles, the innermost of which comes first. -/
def RunStyle.ofStyles : List TextStyle → RunStyle
  | [] => .default
  | style :: outer => (ofStyles outer).within style

/-- Styles never make math plain text; the first of them settles the face, and the first that has
an alphabet settles the alphabet. -/
theorem RunStyle.ofStyles_eq (styles : List TextStyle) :
    RunStyle.ofStyles styles = ⟨false, styles.findSome? TextStyle.alphabet?,
      styles.head?.map TextStyle.face⟩ := by
  induction styles with
  | nil => rfl
  | cons style outer ih =>
    rw [RunStyle.ofStyles, ih, List.findSome?_cons]
    cases halphabet : style.alphabet? <;> simp [RunStyle.within, halphabet]

/-- The style of the run of a leaf. -/
def Leaf.runStyle (leaf : Leaf) : RunStyle :=
  match leaf.expr with
  | .text style _ => .ofText style
  | .operatorName _ => (RunStyle.ofStyles leaf.styles).upright
  | _ => .ofStyles leaf.styles

/-- The run of a leaf. -/
def Leaf.run (leaf : Leaf) : Element := leaf.runStyle.run leaf.shown

/-- The style of the run of a leaf, without going through the styles one by one. -/
theorem Leaf.runStyle_eq (leaf : Leaf) :
    leaf.runStyle = ⟨leaf.isText, leaf.alphabet?, leaf.face?⟩ := by
  obtain ⟨styles, e⟩ := leaf
  cases e with
  | text | operatorName =>
    simp [runStyle, isText, alphabet?, face?, RunStyle.ofText, RunStyle.upright,
      RunStyle.ofStyles_eq]
  | _ => exact RunStyle.ofStyles_eq styles

/-- A leaf that is no plain text and has no face has no alphabet either, so there is nothing for its
run to say. -/
theorem Leaf.silent_of_face?_eq_none {leaf : Leaf} (h : leaf.face? = none) :
    leaf.isText = false ∧ leaf.alphabet? = none := by
  obtain ⟨styles, e⟩ := leaf
  cases e with
  | text | operatorName => cases h
  | _ =>
    have hnone : styles = [] := by simpa [face?] using h
    subst hnone
    exact ⟨rfl, rfl⟩

namespace RunStyle

/-- A run has its text and no other. -/
theorem textContent_run (style : RunStyle) (text : String) :
    (style.run text).textContent = text := by
  obtain ⟨isText, alphabet, face⟩ := style
  cases isText <;> cases alphabet <;> cases face <;>
    simp [run, properties, Element.textContent, Xml.textContentOf, Node.textContent, Element.node,
      Element.withText, Element.withChild, Element.withChildren, Element.math, Element.ofName,
      Element.property, Element.withAttribute]

/-- A run has properties exactly if its style says anything. -/
theorem child?_run (style : RunStyle) (text : String) :
    (style.run text).child? "rPr"
      = if style.properties.isEmpty then none else some (Markup.slot "rPr" style.properties) := by
  rw [run_eq_slot]
  split <;> simp [Element.child?, Element.withText, Element.math, Element.ofName]

/-- What the properties of a run say is its style. -/
theorem says_run (style : RunStyle) (text : String) :
    (((style.run text).child? "rPr").bind (·.child? "nor")).isSome = style.isText ∧
      (style.run text).setting? "rPr" "sty" = style.face.map Face.code ∧
      (style.run text).setting? "rPr" "scr" = style.alphabet.map Alphabet.code := by
  simp only [Element.setting?, child?_run]
  obtain ⟨isText, alphabet, face⟩ := style
  cases isText <;> cases alphabet <;> cases face <;>
    simp [properties, Element.child?, Element.math, Element.ofName]

end RunStyle

/-- The run of a leaf shows it. -/
theorem Leaf.shownBy_run (leaf : Leaf) : leaf.ShownBy leaf.run := by
  obtain ⟨hisText, hface, halphabet⟩ := leaf.runStyle.says_run leaf.shown
  have hstyle := leaf.runStyle_eq
  refine ⟨leaf.runStyle.textContent_run _, ?_, ?_, ?_, ?_⟩
  · rw [run, hisText, hstyle]
  · rw [run, hface, hstyle]
  · rw [run, halphabet, hstyle]
  · rw [run, RunStyle.child?_run, hstyle]
    cases hnone : leaf.face? with
    | some face => simp [RunStyle.properties]
    | none => simp [RunStyle.properties, silent_of_face?_eq_none hnone]

/-! ## The runs of an element -/

/-- The runs inside an element, in the order of the document. -/
def Xml.Element.runs (e : Element) : List Element := e.elements.filter (·.name = .math "r")

/-- The runs inside elements in a row. -/
def runsOf (written : List Element) : List Element := written.flatMap Element.runs

section Runs

open Markup

@[simp] theorem runsOf_nil : runsOf [] = [] := rfl

@[simp] theorem runsOf_cons (e : Element) (rest : List Element) :
    runsOf (e :: rest) = e.runs ++ runsOf rest := rfl

@[simp] theorem runsOf_append (front back : List Element) :
    runsOf (front ++ back) = runsOf front ++ runsOf back := List.flatMap_append

/-- The runs of an element are the runs of its content, and the element itself if it is one. -/
theorem runs_slot_eq (name : String) (content : List Element) :
    (slot name content).runs
      = (if name = "r" then [slot name content] else []) ++ runsOf content := by
  have inside :
      (content.flatMap Element.elements).filter (·.name = .math "r") = runsOf content := by
    induction content with
    | nil => rfl
    | cons e rest ih => simp [ih, Element.runs]
  rw [Element.runs, elements_slot, List.filter_cons, inside]
  by_cases h : name = "r" <;> simp [h]

/-- Any element but a run holds the runs of its content. -/
theorem runs_slot {name : String} (h : name ≠ "r") (content : List Element) :
    (slot name content).runs = runsOf content := by
  rw [runs_slot_eq, if_neg h, List.nil_append]

/-- A property is no run and holds none. -/
theorem runs_property {name : String} (h : name ≠ "r") (value : String) :
    (Element.property name value).runs = [] := by
  have helements : (Element.property name value).elements = [Element.property name value] := rfl
  simp [Element.runs, helements, h]

/-- A run holds no other run. -/
@[simp] theorem runs_run (style : RunStyle) (text : String) :
    (style.run text).runs = [style.run text] := by
  have hproperties : runsOf style.properties = [] := by
    have hnor : (Element.math "nor").runs = [] := runs_slot (by decide) []
    obtain ⟨isText, alphabet, face⟩ := style
    cases isText <;> cases alphabet <;> cases face <;>
      simp (disch := decide) [RunStyle.properties, runs_property, hnor]
  have htext : ((Element.math "t").withText text).runs = [] := by
    have helements : ((Element.math "t").withText text).elements
        = [(Element.math "t").withText text] := rfl
    rw [Element.runs, helements]
    simp [Element.withText, Element.math, Element.ofName]
  rw [run_eq_slot, runs_slot_eq, if_pos rfl, runsOf_append]
  split <;> simp (disch := decide) [runs_slot, hproperties, htext]

section Constructions

variable {base lower upper written : List Element}

@[simp] theorem runs_symbol (style : RunStyle) (kind : SymbolClass) (glyph : String) :
    (symbol style kind glyph).runs = [style.run glyph] := by
  unfold symbol
  split <;> simp (disch := decide) [runs_slot, runs_property]

@[simp] theorem runs_sqrt : (sqrt base).runs = runsOf base := by
  simp (disch := decide) [sqrt, runs_slot, runs_property]

@[simp] theorem runs_root : (root upper base).runs = runsOf upper ++ runsOf base := by
  simp (disch := decide) [root, runs_slot]

@[simp] theorem runs_phantom : (phantom base).runs = runsOf base := by
  simp (disch := decide) [phantom, runs_slot, runs_property]

@[simp] theorem runs_boxed : (boxed base).runs = runsOf base := by
  simp (disch := decide) [boxed, runs_slot]

@[simp] theorem runs_cancelled (stroke : Stroke) : (cancelled stroke base).runs = runsOf base := by
  have hname (flag : BorderFlag) : flag.name ≠ "r" := by cases flag <;> decide
  have hproperties : runsOf ((cancelFlags stroke).propertyNames.map fun name =>
      Element.property name (onOff true)) = [] := by
    refine List.flatMap_eq_nil_iff.mpr fun e he => ?_
    obtain ⟨name, hin, rfl⟩ := List.mem_map.mp he
    obtain ⟨flag, -, rfl⟩ := List.mem_map.mp hin
    exact runs_property (hname flag) _
  simp (disch := decide) [cancelled, runs_slot, hproperties]

@[simp] theorem runs_subscript : (subscript base lower).runs = runsOf base ++ runsOf lower := by
  simp (disch := decide) [subscript, runs_slot]

@[simp] theorem runs_superscript : (superscript base upper).runs = runsOf base ++ runsOf upper := by
  simp (disch := decide) [superscript, runs_slot]

@[simp] theorem runs_bothScripts :
    (bothScripts base lower upper).runs = runsOf base ++ runsOf lower ++ runsOf upper := by
  simp (disch := decide) [bothScripts, runs_slot]

@[simp] theorem runs_fraction (style : FractionStyle) :
    (fraction style upper lower).runs = runsOf upper ++ runsOf lower := by
  simp (disch := decide) [fraction, runs_slot, runs_property]

@[simp] theorem runs_bar (position : Position) : (bar position base).runs = runsOf base := by
  simp (disch := decide) [bar, runs_slot, runs_property]

@[simp] theorem runs_accent (mark : String) : (accent mark base).runs = runsOf base := by
  simp (disch := decide) [accent, runs_slot, runs_property]

@[simp] theorem runs_groupCharacter (mark : String) (position : Position) :
    (groupCharacter mark position base).runs = runsOf base := by
  simp (disch := decide) [groupCharacter, runs_slot, runs_property]

@[simp] theorem runs_upperLimit : (upperLimit base upper).runs = runsOf base ++ runsOf upper := by
  simp (disch := decide) [upperLimit, runs_slot]

@[simp] theorem runs_lowerLimit : (lowerLimit base lower).runs = runsOf base ++ runsOf lower := by
  simp (disch := decide) [lowerLimit, runs_slot]

/-- What is drawn above a base has no run. -/
@[simp] theorem runs_placeAbove (above : Expr) :
    (placeAbove base above written).runs
      = runsOf base ++ if above.isMarkAbove then [] else runsOf written := by
  cases above with
  | symbol kind glyph =>
    by_cases hbar : glyph ∈ barGlyphs
    · simp [placeAbove, Expr.isMarkAbove, hbar]
    by_cases haccent : kind = .accent
    · simp [placeAbove, Expr.isMarkAbove, hbar, haccent]
    by_cases hmark : kind = .overMark <;>
      simp [placeAbove, Expr.isMarkAbove, hbar, haccent, hmark]
  | _ => exact runs_upperLimit

/-- What is drawn below a base has no run. -/
@[simp] theorem runs_placeBelow (below : Expr) :
    (placeBelow base below written).runs
      = runsOf base ++ if below.isMarkBelow then [] else runsOf written := by
  cases below with
  | symbol kind glyph =>
    by_cases hbar : glyph ∈ barGlyphs
    · simp [placeBelow, Expr.isMarkBelow, hbar]
    by_cases haccent : kind = .accent
    · simp [placeBelow, Expr.isMarkBelow, hbar, haccent]
    by_cases hmark : kind = .underMark ∨ kind = .lowAccent <;>
      simp [placeBelow, Expr.isMarkBelow, hbar, haccent, hmark]
  | _ => exact runs_lowerLimit

/-- The sign of an n-ary operator has no run. -/
@[simp] theorem runs_nary (glyph : String) (location : LimitLocation)
    (lower upper : Option (List Element)) (operand : List Element) :
    (nary glyph location lower upper operand).runs
      = runsOf (lower.getD []) ++ runsOf (upper.getD []) ++ runsOf operand := by
  simp (disch := decide) [nary, runs_slot, runs_property]

/-- Slots of one name hold what they hold in a row. -/
theorem runsOf_slots {name : String} (h : name ≠ "r") (parts : List (List Element)) :
    runsOf (parts.map (slot name)) = parts.flatMap runsOf := by
  induction parts with
  | nil => rfl
  | cons part rest ih => simp [runs_slot h, ih]

@[simp] theorem runs_delimited (opening closing : String) (separator : Option String)
    (parts : List (List Element)) :
    (delimited opening closing separator parts).runs = parts.flatMap runsOf := by
  unfold delimited
  cases separator <;> simp (disch := decide) [runs_slot, runs_property, runsOf_slots]

@[simp] theorem runs_array (alignments : List Alignment) (rows : List (List (List Element))) :
    (array alignments rows).runs = rows.flatMap fun row => row.flatMap runsOf := by
  have hrows : runsOf (rows.map fun cells => slot "mr" (cells.map (slot "e")))
      = rows.flatMap fun row => row.flatMap runsOf := by
    induction rows with
    | nil => rfl
    | cons row rest ih => simp (disch := decide) [runs_slot, runsOf_slots, ih]
  have hcolumns : runsOf (alignments.map fun alignment => slot "mc" [slot "mcPr"
      [.property "count" "1", .property "mcJc" (alignmentCode alignment)]]) = [] := by
    simp (disch := decide) [runsOf, runs_slot, runs_property]
  unfold array
  rw [runs_slot (by decide), runsOf_cons, hrows, runs_slot (by decide), runsOf_append]
  split <;> simp (disch := decide) [runs_slot, runs_property, hcolumns]

end Constructions

end Runs

/-! ## What is written -/

section Write

variable {display : Display}

/-- What becomes of the leaves of an optional limit. -/
theorem runsOf_shownLimit {styles : List TextStyle} {limit : Expr} {written : List Element}
    (h : runsOf written = (limit.shownLeaves display styles).map Leaf.run) :
    runsOf ((shownLimit limit written).getD [])
      = (leavesUnless limit.isEmptyGroup (limit.shownLeaves display styles)).map Leaf.run := by
  unfold shownLimit leavesUnless
  split
  · rfl
  · exact h

/-- The runs of a list are those of its members in a row. -/
theorem runsOf_writeAll {styles : List TextStyle} {members : List Expr}
    (h : ∀ e ∈ members, runsOf (write display (.ofStyles styles) e)
      = (e.shownLeaves display styles).map Leaf.run) :
    runsOf (writeAll display (.ofStyles styles) members)
      = (shownLeavesOf display styles members).map Leaf.run := by
  induction members with
  | nil => rfl
  | cons e rest ih =>
    rw [List.forall_mem_cons] at h
    simp [writeAll, shownLeavesOf, h.1, ih h.2]

/-- The runs of a region are those of its items in a row. -/
theorem runsOf_writeParts {styles : List TextStyle} {content : List Item}
    (h : ∀ e, Item.expr e ∈ content → runsOf (write display (.ofStyles styles) e)
      = (e.shownLeaves display styles).map Leaf.run) :
    runsOf (writeParts display (.ofStyles styles) content).1
        ++ (writeParts display (.ofStyles styles) content).2.flatMap runsOf
      = (shownLeavesOfItems display styles content).map Leaf.run := by
  induction content with
  | nil => rfl
  | cons item rest ih =>
    have hrest := ih fun e he => h e (List.mem_cons_of_mem _ he)
    cases item with
    | separator glyph => simpa [writeParts, shownLeavesOfItems] using hrest
    | expr e =>
      have hfirst := h e List.mem_cons_self
      simp [writeParts, shownLeavesOfItems, hfirst, ← hrest]

/-- The runs of an array are those of its cells, row by row. -/
theorem runsOf_writeRows {styles : List TextStyle} {rows : List Row}
    (h : ∀ row ∈ rows, ∀ cell ∈ row, ∀ e ∈ cell, runsOf (write display (.ofStyles styles) e)
      = (e.shownLeaves display styles).map Leaf.run) :
    ((writeRows display (.ofStyles styles) rows).flatMap fun row => row.flatMap runsOf)
      = (shownLeavesOfRows display styles rows).map Leaf.run := by
  have hcells {row : Row} (h : ∀ cell ∈ row, ∀ e ∈ cell,
      runsOf (write display (.ofStyles styles) e) = (e.shownLeaves display styles).map Leaf.run) :
      (writeCells display (.ofStyles styles) row).flatMap runsOf
        = (shownLeavesOfCells display styles row).map Leaf.run := by
    induction row with
    | nil => rfl
    | cons cell rest ih =>
      rw [List.forall_mem_cons] at h
      simp [writeCells, shownLeavesOfCells, runsOf_writeAll h.1, ih h.2]
  induction rows with
  | nil => rfl
  | cons row rest ih =>
    rw [List.forall_mem_cons] at h
    simp [writeRows, shownLeavesOfRows, hcells h.1, ih h.2]

/-- **A style reaches its leaves through every construction.**  The runs of what is written inside
of styles are the runs of the leaves in these styles; and so are the runs of the limits of an n-ary
operator. -/
theorem runsOf_write (display : Display) (e : Expr) (styles : List TextStyle) :
    runsOf (write display (.ofStyles styles) e) = (e.shownLeaves display styles).map Leaf.run ∧
      runsOf ((writeLimits display (.ofStyles styles) e).1.getD [])
          ++ runsOf ((writeLimits display (.ofStyles styles) e).2.getD [])
        = (e.limitLeaves display styles).map Leaf.run := by
  induction e generalizing styles with
  | number | identifier | symbol | text | space | operatorName =>
    simp [write, writeLimits, Expr.shownLeaves, Expr.limitLeaves, Leaf.run, Leaf.runStyle,
      Leaf.shown]
  | group members ih =>
    refine ⟨?_, rfl⟩
    rcases members with _ | ⟨first, _ | ⟨second, _ | ⟨third, rest⟩⟩⟩
    · simp [write, writeGroup, Expr.shownLeaves, shownLeavesOfGroup, Leaf.run, Leaf.runStyle,
        Leaf.shown, Expr.empty]
    · exact (ih first (by simp) styles).1
    · obtain ⟨hfirst, hlimits⟩ := ih first (by simp) styles
      have hsecond := (ih second (by simp) styles).1
      simp only [write, writeGroup, Expr.shownLeaves, shownLeavesOfGroup]
      cases first.naryHead? display with
      | some head => simp [hlimits, hsecond]
      | none => simp [hfirst, hsecond]
    · have all := runsOf_writeAll fun e he => (ih e he styles).1
      simpa [write, writeGroup, writeAll, Expr.shownLeaves, shownLeavesOfGroup, shownLeavesOf]
        using all
  | sqrt inner ih | phantom inner ih | boxed inner ih | cancel stroke inner ih
  | scaled factor inner ih =>
    refine ⟨?_, rfl⟩
    simp [write, Expr.shownLeaves, (ih styles).1]
  | root first second ihFirst ihSecond | fraction kind first second ihFirst ihSecond =>
    refine ⟨?_, rfl⟩
    simp [write, Expr.shownLeaves, (ihFirst styles).1, (ihSecond styles).1]
  | sub base limit ihBase ihLimit | super base limit ihBase ihLimit =>
    have hlimit := (ihLimit styles).1
    refine ⟨by simp [write, Expr.shownLeaves, (ihBase styles).1, hlimit], ?_⟩
    simp [writeLimits, Expr.limitLeaves, runsOf_shownLimit hlimit]
  | subSup base lower upper ihBase ihLower ihUpper =>
    have hlower := (ihLower styles).1
    have hupper := (ihUpper styles).1
    refine ⟨by simp [write, Expr.shownLeaves, (ihBase styles).1, hlower, hupper], ?_⟩
    simp [writeLimits, Expr.limitLeaves, runsOf_shownLimit hlower, runsOf_shownLimit hupper]
  | «over» movable base above ihBase ihAbove =>
    have hbase := (ihBase styles).1
    have habove := (ihAbove styles).1
    refine ⟨?_, by simp [writeLimits, Expr.limitLeaves, runsOf_shownLimit habove]⟩
    cases hside : movable && display = .inline <;> cases hmark : above.isMarkAbove <;>
      simp [write, Expr.shownLeaves, leavesUnless, hside, hmark, hbase, habove]
  | under movable base below ihBase ihBelow =>
    have hbase := (ihBase styles).1
    have hbelow := (ihBelow styles).1
    refine ⟨?_, by simp [writeLimits, Expr.limitLeaves, runsOf_shownLimit hbelow]⟩
    cases hside : movable && display = .inline <;> cases hmark : below.isMarkBelow <;>
      simp [write, Expr.shownLeaves, leavesUnless, hside, hmark, hbase, hbelow]
  | underOver movable base below above ihBase ihBelow ihAbove =>
    have hbase := (ihBase styles).1
    have hbelow := (ihBelow styles).1
    have habove := (ihAbove styles).1
    refine ⟨?_, by simp [writeLimits, Expr.limitLeaves, runsOf_shownLimit hbelow,
      runsOf_shownLimit habove]⟩
    cases hside : movable && display = .inline <;> cases hbelowMark : below.isMarkBelow <;>
      cases haboveMark : above.isMarkAbove <;>
      simp [write, Expr.shownLeaves, leavesUnless, hside, hbelowMark, haboveMark, hbase, hbelow,
        habove]
  | delimited opening closing content ih =>
    refine ⟨?_, rfl⟩
    have hparts := runsOf_writeParts fun e he => (ih e he styles).1
    simp [write, Expr.shownLeaves, hparts]
  | array alignments rows ih =>
    refine ⟨?_, rfl⟩
    have hrows := runsOf_writeRows fun row hrow cell hcell e he =>
      (ih row hrow cell hcell e he styles).1
    simp [write, Expr.shownLeaves, hrows]
  | styled style members ih =>
    refine ⟨?_, rfl⟩
    exact runsOf_writeAll fun e he => (ih e he (style :: styles)).1

/-- The runs of a formula are the runs of its shown leaves. -/
theorem runs_writeFormula (display : Display) (formula : Formula) :
    (writeFormula display formula).runs = (shownLeaves display formula).map Leaf.run := by
  have hmembers : runsOf (writeMembers display formula)
      = (shownLeaves display formula).map Leaf.run := by
    unfold writeMembers shownLeaves
    induction pairOperands display formula with
    | nil => rfl
    | cons member rest ih =>
      have hmember : runsOf (member.write display)
          = (member.shownLeaves display).map Leaf.run := by
        cases member with
        | single e => exact (runsOf_write display e []).1
        | applied head operator operand =>
          have hlimits := (runsOf_write display operator []).2
          have hoperand := (runsOf_write display operand []).1
          simp only [RunStyle.ofStyles] at hlimits hoperand
          simp [Member.write, Member.shownLeaves, hoperand, ← hlimits]
      simp [hmember, ih]
  have hmath : (Markup.math (writeMembers display formula)).runs
      = (shownLeaves display formula).map Leaf.run := by
    rw [← hmembers]
    exact runs_slot (by decide) _
  cases display with
  | inline => exact hmath
  | block =>
    simpa (disch := decide) [writeFormula, Markup.mathParagraph, runs_slot, runs_property]
      using hmath

/-- A bold letter in a fraktur part, and a sum whose sign is no run and whose operand is missing. -/
example : shownLeaves .block [.styled .fraktur [.sqrt (.styled .bold [.identifier "x"])],
    .under true (.symbol .operator "∑") (.operatorName "id")]
      = [⟨[.bold, .fraktur], .identifier "x"⟩, ⟨[], .operatorName "id"⟩, ⟨[], .empty⟩] := rfl

end Write

end OfficeMath
