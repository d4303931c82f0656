import Mathlib.Data.List.Forall2
import OfficeMath.Proofs.Markup.Lowering
import OfficeMath.Proofs.Markup.StyleScope

/-!
# Styles change nothing but the properties of runs

A style is a tag on a part of a formula.  Here all tags are reset to one and the same style
(`Expr.unstyled`), and the properties of all runs are taken out of the markup
(`Element.withoutRunProperties`).  What is left of the markup is the same with the tags and without
them (`write_mapNodes_resetStyle`): no construction looks at a style, and no style adds a
construction or takes one away.

Together with the scope of a style this is all there is to say about styles
(`writeFormula_styleScope`).
-/

namespace OfficeMath

open Xml (Element Node Name)

/-! ## Tags -/

/-- An expression with its tag reset, if it has one. -/
def Expr.resetStyle : Expr → Expr
  | .styled _ members => .styled .normal members
  | .text _ shown => .text .normal shown
  | e => e

/-- An expression with all tags reset, at any depth. -/
def Expr.unstyled (e : Expr) : Expr := e.mapNodes resetStyle

/-- Two formulas that differ in nothing but the styles of texts and styled parts, at any depth. -/
def DifferOnlyInStyles (first second : Formula) : Prop :=
  first.map Expr.unstyled = second.map Expr.unstyled

/-! ## Markup without the properties of runs -/

namespace Xml

mutual

/-- A piece of content without the properties of runs in it, and nothing of it if it is such
properties. -/
def Node.withoutRunProperties : Node → List Node
  | .text content => [.text content]
  | .element name attributes children =>
    if name = .math "rPr" then [] else [.element name attributes (withoutRunPropertiesIn children)]

/-- Several pieces of content without the properties of runs in them. -/
def withoutRunPropertiesIn : List Node → List Node
  | [] => []
  | node :: rest => node.withoutRunProperties ++ withoutRunPropertiesIn rest

end

/-- An element with the properties of all runs inside it removed, at any depth. -/
def Element.withoutRunProperties (e : Element) : Element :=
  { e with children := withoutRunPropertiesIn e.children }

end Xml

/-- Elements in a row without the properties of runs. -/
def bareOf (written : List Element) : List Element :=
  (written.filter (·.name ≠ .math "rPr")).map Element.withoutRunProperties

section Bare

open Markup

@[simp] theorem bareOf_nil : bareOf [] = [] := rfl

@[simp] theorem bareOf_append (front back : List Element) :
    bareOf (front ++ back) = bareOf front ++ bareOf back := by
  simp [bareOf]

/-- An element that is not the properties of a run stays where it is. -/
theorem bareOf_cons {e : Element} (h : e.name ≠ .math "rPr") (rest : List Element) :
    bareOf (e :: rest) = e.withoutRunProperties :: bareOf rest := by
  simp [bareOf, h]

/-- A slot stays, and so does what it holds. -/
theorem bare_slot (name : String) (content : List Element) :
    (slot name content).withoutRunProperties = slot name (bareOf content) := by
  have inside : Xml.withoutRunPropertiesIn (content.map Element.node)
      = (bareOf content).map Element.node := by
    induction content with
    | nil => rfl
    | cons e rest ih =>
      rw [List.map_cons, Xml.withoutRunPropertiesIn, ih]
      by_cases h : e.name = .math "rPr" <;>
        simp [Element.node, Node.withoutRunProperties, bareOf, Element.withoutRunProperties, h]
  simp [slot, Element.withoutRunProperties, Element.withChildren, Element.math, Element.ofName,
    inside]

@[simp] theorem bareOf_slot {name : String} (h : name ≠ "rPr") (content rest : List Element) :
    bareOf (slot name content :: rest) = slot name (bareOf content) :: bareOf rest := by
  rw [bareOf_cons (by simpa using h), bare_slot]

@[simp] theorem bareOf_property {name : String} (h : name ≠ "rPr") (value : String)
    (rest : List Element) :
    bareOf (.property name value :: rest) = .property name value :: bareOf rest := by
  rw [bareOf_cons (by simpa using h)]
  rfl

/-- Elements each of which stays as it is. -/
theorem bareOf_map {α : Type} (f : α → Element) (h : ∀ a, bareOf [f a] = [f a]) (values : List α) :
    bareOf (values.map f) = values.map f := by
  induction values with
  | nil => rfl
  | cons a rest ih =>
    rw [List.map_cons, ← List.singleton_append, bareOf_append, h, ih]

/-- Without properties a run is its text, whatever its style. -/
theorem bareOf_run (style : RunStyle) (text : String) :
    bareOf [style.run text] = [slot "r" [(Element.math "t").withText text]] := by
  have htext : bareOf [(Element.math "t").withText text] = [(Element.math "t").withText text] := by
    simp [bareOf, Element.withoutRunProperties, Element.withText, Element.math, Element.ofName,
      Xml.withoutRunPropertiesIn, Node.withoutRunProperties]
  rw [run_eq_slot, bareOf_slot (by decide), bareOf_append, htext]
  split <;> simp [bareOf]

/-- A symbol is in a box or not, in any style. -/
theorem bareOf_symbol (style style' : RunStyle) (kind : SymbolClass) (glyph : String) :
    bareOf [symbol style kind glyph] = bareOf [symbol style' kind glyph] := by
  unfold symbol
  split <;> simp (disch := decide) [bareOf_run]

section Constructions

/-! A construction keeps its form: it is built over what is left of its content. -/

variable {base lower upper written : List Element}

@[simp] theorem bareOf_sqrt : bareOf [sqrt base] = [sqrt (bareOf base)] := by
  simp (disch := decide) [sqrt]

@[simp] theorem bareOf_root : bareOf [root upper base] = [root (bareOf upper) (bareOf base)] := by
  simp (disch := decide) [root]

@[simp] theorem bareOf_phantom : bareOf [phantom base] = [phantom (bareOf base)] := by
  simp (disch := decide) [phantom]

@[simp] theorem bareOf_boxed : bareOf [boxed base] = [boxed (bareOf base)] := by
  simp (disch := decide) [boxed]

@[simp] theorem bareOf_cancelled (stroke : Stroke) :
    bareOf [cancelled stroke base] = [cancelled stroke (bareOf base)] := by
  have hflag (flag : BorderFlag) : bareOf [Element.property flag.name (onOff true)]
      = [Element.property flag.name (onOff true)] := by
    have hname : flag.name ≠ "rPr" := by cases flag <;> decide
    exact bareOf_property hname _ []
  have hproperties : bareOf ((cancelFlags stroke).propertyNames.map fun name =>
      Element.property name (onOff true)) = (cancelFlags stroke).propertyNames.map fun name =>
        Element.property name (onOff true) := by
    simpa [BorderFlags.propertyNames, Function.comp_def] using bareOf_map _ hflag _
  simp (disch := decide) [cancelled, hproperties]

@[simp] theorem bareOf_subscript :
    bareOf [subscript base lower] = [subscript (bareOf base) (bareOf lower)] := by
  simp (disch := decide) [subscript]

@[simp] theorem bareOf_superscript :
    bareOf [superscript base upper] = [superscript (bareOf base) (bareOf upper)] := by
  simp (disch := decide) [superscript]

@[simp] theorem bareOf_bothScripts :
    bareOf [bothScripts base lower upper]
      = [bothScripts (bareOf base) (bareOf lower) (bareOf upper)] := by
  simp (disch := decide) [bothScripts]

@[simp] theorem bareOf_fraction (style : FractionStyle) :
    bareOf [fraction style upper lower] = [fraction style (bareOf upper) (bareOf lower)] := by
  simp (disch := decide) [fraction]

@[simp] theorem bareOf_placeAbove (above : Expr) :
    bareOf [placeAbove base above written]
      = [placeAbove (bareOf base) above (bareOf written)] := by
  have hlimit : bareOf [upperLimit base written] = [upperLimit (bareOf base) (bareOf written)] := by
    simp (disch := decide) [upperLimit]
  cases above with
  | symbol kind glyph =>
    simp only [placeAbove]
    split
    · simp (disch := decide) [bar]
    split
    · simp (disch := decide) [accent]
    split
    · simp (disch := decide) [groupCharacter]
    · exact hlimit
  | _ => exact hlimit

@[simp] theorem bareOf_placeBelow (below : Expr) :
    bareOf [placeBelow base below written]
      = [placeBelow (bareOf base) below (bareOf written)] := by
  have hlimit : bareOf [lowerLimit base written] = [lowerLimit (bareOf base) (bareOf written)] := by
    simp (disch := decide) [lowerLimit]
  cases below with
  | symbol kind glyph =>
    simp only [placeBelow]
    split
    · simp (disch := decide) [bar]
    split
    · simp (disch := decide) [accent]
    split
    · simp (disch := decide) [groupCharacter]
    · exact hlimit
  | _ => exact hlimit

@[simp] theorem bareOf_nary (glyph : String) (location : LimitLocation)
    (lower upper : Option (List Element)) (operand : List Element) :
    bareOf [nary glyph location lower upper operand]
      = [nary glyph location (lower.map bareOf) (upper.map bareOf) (bareOf operand)] := by
  cases lower <;> cases upper <;> simp (disch := decide) [nary]

/-- Slots of one name stay, and so does what they hold. -/
theorem bareOf_slots {name : String} (h : name ≠ "rPr") (parts : List (List Element)) :
    bareOf (parts.map (slot name)) = (parts.map bareOf).map (slot name) := by
  induction parts with
  | nil => rfl
  | cons part rest ih => simp [bareOf_slot h, ih]

@[simp] theorem bareOf_delimited (opening closing : String) (separator : Option String)
    (parts : List (List Element)) :
    bareOf [delimited opening closing separator parts]
      = [delimited opening closing separator (parts.map bareOf)] := by
  unfold delimited
  cases separator <;> simp (disch := decide) [bareOf_slots]

@[simp] theorem bareOf_array (alignments : List Alignment) (rows : List (List (List Element))) :
    bareOf [array alignments rows] = [array alignments (rows.map (List.map bareOf))] := by
  have hrows : bareOf (rows.map fun cells => slot "mr" (cells.map (slot "e")))
      = (rows.map (List.map bareOf)).map fun cells => slot "mr" (cells.map (slot "e")) := by
    induction rows with
    | nil => rfl
    | cons row rest ih => simp (disch := decide) [bareOf_slots, ih]
  have hcolumns : bareOf (alignments.map fun alignment => slot "mc" [slot "mcPr"
        [.property "count" "1", .property "mcJc" (alignmentCode alignment)]])
      = alignments.map fun alignment => slot "mc" [slot "mcPr"
        [.property "count" "1", .property "mcJc" (alignmentCode alignment)]] :=
    bareOf_map _ (fun alignment => by simp (disch := decide)) _
  unfold array
  rw [bareOf_slot (by decide), bareOf_slot (by decide), hrows, bareOf_append]
  split <;> simp (disch := decide) [hcolumns]

end Constructions

end Bare

/-! ## Writing with other tags -/

/-- Another style makes no bare n-ary operator and destroys none. -/
theorem naryGlyph?_mapNodes_resetStyle (e : Expr) :
    (e.mapNodes .resetStyle).naryGlyph? = e.naryGlyph? := by
  cases e <;> rfl

/-- Whether an expression is a large operator with limits does not depend on styles. -/
theorem naryHead?_mapNodes_resetStyle (display : Display) (e : Expr) :
    (e.mapNodes .resetStyle).naryHead? display = e.naryHead? display := by
  cases e with
  | sub base | super base | subSup base | «over» movable base | under movable base
  | underOver movable base =>
    exact congrArg (Option.map _) (naryGlyph?_mapNodes_resetStyle base)
  | _ => rfl

/-- Another style makes no empty group and fills none. -/
theorem isEmptyGroup_mapNodes_resetStyle (e : Expr) :
    (e.mapNodes .resetStyle).isEmptyGroup = e.isEmptyGroup := by
  cases e with
  | group members => cases members <;> rfl
  | _ => rfl

/-- Another style makes no mark and destroys none. -/
theorem placeAbove_mapNodes_resetStyle (base written : List Element) (above : Expr) :
    Markup.placeAbove base (above.mapNodes .resetStyle) written
      = Markup.placeAbove base above written := by
  cases above <;> rfl

/-- What is below a base is placed in the same way in any style. -/
theorem placeBelow_mapNodes_resetStyle (base written : List Element) (below : Expr) :
    Markup.placeBelow base (below.mapNodes .resetStyle) written
      = Markup.placeBelow base below written := by
  cases below <;> rfl

section Write

variable {display : Display} {style style' : RunStyle}

/-- An expression with its tags reset is written in one style as the expression is in another one,
but for the properties of runs. -/
abbrev SameButForStyle (display : Display) (style style' : RunStyle) (e : Expr) : Prop :=
  bareOf (write display style (e.mapNodes .resetStyle)) = bareOf (write display style' e)

/-- Lists are the same but for their styles if their members are. -/
theorem bareOf_writeAll {members : List Expr}
    (h : ∀ e ∈ members, SameButForStyle display style style' e) :
    bareOf (writeAll display style (mapMembers .resetStyle members))
      = bareOf (writeAll display style' members) := by
  induction members with
  | nil => rfl
  | cons e rest ih =>
    rw [List.forall_mem_cons] at h
    simp [mapMembers, writeAll, h.1, ih h.2]

/-- So are the parts of a region. -/
theorem bareOf_writeParts {content : List Item}
    (h : ∀ e, Item.expr e ∈ content → SameButForStyle display style style' e) :
    ((writeParts display style (mapItems .resetStyle content)).1 ::
        (writeParts display style (mapItems .resetStyle content)).2).map bareOf
      = ((writeParts display style' content).1 :: (writeParts display style' content).2).map
        bareOf := by
  induction content with
  | nil => rfl
  | cons item rest ih =>
    have hrest := ih fun e he => h e (List.mem_cons_of_mem _ he)
    rw [List.map_cons, List.map_cons, List.cons_eq_cons] at hrest
    cases item with
    | separator glyph => simp [mapItems, writeParts, hrest]
    | expr e =>
      have hfirst := h e List.mem_cons_self
      simp [mapItems, writeParts, hfirst, hrest]

/-- So are the rows of an array. -/
theorem bareOf_writeRows {rows : List Row}
    (h : ∀ row ∈ rows, ∀ cell ∈ row, ∀ e ∈ cell, SameButForStyle display style style' e) :
    (writeRows display style (mapRows .resetStyle rows)).map (List.map bareOf)
      = (writeRows display style' rows).map (List.map bareOf) := by
  have hcells {row : Row} (h : ∀ cell ∈ row, ∀ e ∈ cell, SameButForStyle display style style' e) :
      (writeCells display style (mapCells .resetStyle row)).map bareOf
        = (writeCells display style' row).map bareOf := by
    induction row with
    | nil => rfl
    | cons cell rest ih =>
      rw [List.forall_mem_cons] at h
      simp [mapCells, writeCells, bareOf_writeAll h.1, ih h.2]
  induction rows with
  | nil => rfl
  | cons row rest ih =>
    rw [List.forall_mem_cons] at h
    simp [mapRows, writeRows, hcells h.1, ih h.2]

/-- A limit is hidden in any style or in none. -/
theorem bareOf_shownLimit {limit : Expr} (h : SameButForStyle display style style' limit) :
    (shownLimit (limit.mapNodes .resetStyle)
        (write display style (limit.mapNodes .resetStyle))).map bareOf
      = (shownLimit limit (write display style' limit)).map bareOf := by
  unfold shownLimit
  rw [isEmptyGroup_mapNodes_resetStyle]
  split
  · rfl
  · exact congrArg some h

/-- **No construction looks at a style.**  Without the properties of runs an expression is written
as it is with its tags reset, in whatever styles the two stand; and so are the limits that it has
as an n-ary operator. -/
theorem write_mapNodes_resetStyle (display : Display) (e : Expr) (style style' : RunStyle) :
    SameButForStyle display style style' e ∧
      (writeLimits display style (e.mapNodes .resetStyle)).1.map bareOf
        = (writeLimits display style' e).1.map bareOf ∧
      (writeLimits display style (e.mapNodes .resetStyle)).2.map bareOf
        = (writeLimits display style' e).2.map bareOf := by
  induction e generalizing style style' with
  | number | identifier | text | space | operatorName =>
    refine ⟨?_, rfl, rfl⟩
    simp [SameButForStyle, Expr.mapNodes, Expr.resetStyle, write, bareOf_run]
  | symbol kind glyph => exact ⟨bareOf_symbol _ _ _ _, rfl, rfl⟩
  | group members ih =>
    refine ⟨?_, rfl, rfl⟩
    rcases members with _ | ⟨first, _ | ⟨second, _ | ⟨third, rest⟩⟩⟩
    · simp [SameButForStyle, Expr.mapNodes, Expr.resetStyle, mapMembers, write, writeGroup,
        bareOf_run]
    · exact (ih first (by simp) style style').1
    · obtain ⟨hfirst, hlower, hupper⟩ := ih first (by simp) style style'
      have hsecond := (ih second (by simp) style style').1
      simp only [SameButForStyle, Expr.mapNodes, Expr.resetStyle, mapMembers, write, writeGroup,
        naryHead?_mapNodes_resetStyle] at *
      cases first.naryHead? display with
      | some head => simp [hlower, hupper, hsecond]
      | none => simp [hfirst, hsecond]
    · have all := bareOf_writeAll fun e he => (ih e he style style').1
      simpa [SameButForStyle, Expr.mapNodes, Expr.resetStyle, mapMembers, write, writeGroup,
        writeAll] using all
  | sqrt inner ih | phantom inner ih | boxed inner ih | cancel stroke inner ih
  | scaled factor inner ih =>
    refine ⟨?_, rfl, rfl⟩
    simp [SameButForStyle, Expr.mapNodes, Expr.resetStyle, write, (ih style style').1]
  | root first second ihFirst ihSecond | fraction kind first second ihFirst ihSecond =>
    refine ⟨?_, rfl, rfl⟩
    simp [SameButForStyle, Expr.mapNodes, Expr.resetStyle, write, (ihFirst style style').1,
      (ihSecond style style').1]
  | sub base lower ihBase ihLower =>
    have hlower := (ihLower style style').1
    refine ⟨?_, bareOf_shownLimit hlower, rfl⟩
    simp [SameButForStyle, Expr.mapNodes, Expr.resetStyle, write, (ihBase style style').1, hlower]
  | super base upper ihBase ihUpper =>
    have hupper := (ihUpper style style').1
    refine ⟨?_, rfl, bareOf_shownLimit hupper⟩
    simp [SameButForStyle, Expr.mapNodes, Expr.resetStyle, write, (ihBase style style').1, hupper]
  | subSup base lower upper ihBase ihLower ihUpper =>
    have hlower := (ihLower style style').1
    have hupper := (ihUpper style style').1
    refine ⟨?_, bareOf_shownLimit hlower, bareOf_shownLimit hupper⟩
    simp [SameButForStyle, Expr.mapNodes, Expr.resetStyle, write, (ihBase style style').1, hlower,
      hupper]
  | «over» movable base above ihBase ihAbove =>
    have hbase := (ihBase style style').1
    have habove := (ihAbove style style').1
    refine ⟨?_, rfl, bareOf_shownLimit habove⟩
    simp only [SameButForStyle, Expr.mapNodes, Expr.resetStyle, write]
    split <;> simp [placeAbove_mapNodes_resetStyle, hbase, habove]
  | under movable base below ihBase ihBelow =>
    have hbase := (ihBase style style').1
    have hbelow := (ihBelow style style').1
    refine ⟨?_, bareOf_shownLimit hbelow, rfl⟩
    simp only [SameButForStyle, Expr.mapNodes, Expr.resetStyle, write]
    split <;> simp [placeBelow_mapNodes_resetStyle, hbase, hbelow]
  | underOver movable base below above ihBase ihBelow ihAbove =>
    have hbase := (ihBase style style').1
    have hbelow := (ihBelow style style').1
    have habove := (ihAbove style style').1
    refine ⟨?_, bareOf_shownLimit hbelow, bareOf_shownLimit habove⟩
    simp only [SameButForStyle, Expr.mapNodes, Expr.resetStyle, write]
    split <;> simp [placeAbove_mapNodes_resetStyle, placeBelow_mapNodes_resetStyle, hbase, hbelow,
      habove]
  | delimited opening closing content ih =>
    have hparts := bareOf_writeParts fun e he => (ih e he style style').1
    refine ⟨?_, rfl, rfl⟩
    simp only [SameButForStyle, Expr.mapNodes, Expr.resetStyle, write, firstSeparator?_mapItems,
      bareOf_delimited, hparts]
  | array alignments rows ih =>
    have hrows := bareOf_writeRows fun row hrow cell hcell e he =>
      (ih row hrow cell hcell e he style style').1
    refine ⟨?_, rfl, rfl⟩
    simp [SameButForStyle, Expr.mapNodes, Expr.resetStyle, write, hrows]
  | styled inner members ih =>
    refine ⟨?_, rfl, rfl⟩
    exact bareOf_writeAll fun e he => (ih e he (style.within .normal) (style'.within inner)).1

/-- Without the properties of runs the members of a formula are written as they are with their tags
reset. -/
theorem bareOf_writeMembers (formula : Formula) :
    bareOf (writeMembers display (formula.map Expr.unstyled))
      = bareOf (writeMembers display formula) := by
  have hhead (e : Expr) : e.unstyled.naryHead? display = e.naryHead? display :=
    naryHead?_mapNodes_resetStyle display e
  have hsingle (e : Expr) : bareOf (Member.write display (.single e.unstyled))
      = bareOf (Member.write display (.single e)) :=
    (write_mapNodes_resetStyle display e .default .default).1
  have happlied (head : NaryHead) (e operand : Expr) :
      bareOf (Member.write display (.applied head e.unstyled operand.unstyled))
        = bareOf (Member.write display (.applied head e operand)) := by
    obtain ⟨-, hlower, hupper⟩ := write_mapNodes_resetStyle display e .default .default
    have hoperand := (write_mapNodes_resetStyle display operand .default .default).1
    simp [Member.write, Expr.unstyled, hlower, hupper, hoperand]
  unfold writeMembers
  induction formula using pairOperands.induct display with
  | case1 => rfl
  | case2 e head hsome =>
    -- the operand that is made up is the same with and without tags
    have hempty : Expr.empty.unstyled = .empty := rfl
    have hmade := happlied head e .empty
    rw [hempty] at hmade
    simpa [pairOperands, hhead, hsome] using hmade
  | case3 e hnone => simp [pairOperands, hhead, hnone, hsingle]
  | case4 e next rest head hsome ih => simp [pairOperands, hhead, hsome, happlied, ih]
  | case5 e next rest hnone ih =>
    rw [List.map_cons] at ih
    simp [pairOperands, hhead, hnone, hsingle, ih]

end Write

/-- Two formulas that differ in nothing but their styles are written as elements that differ in
nothing but the properties of runs. -/
theorem withoutRunProperties_writeFormula {first second : Formula} (display : Display)
    (h : DifferOnlyInStyles first second) :
    (writeFormula display first).withoutRunProperties
      = (writeFormula display second).withoutRunProperties := by
  have hmembers : bareOf (writeMembers display first) = bareOf (writeMembers display second) := by
    rw [← bareOf_writeMembers first, h, bareOf_writeMembers second]
  have hmath : (Markup.math (writeMembers display first)).withoutRunProperties
      = (Markup.math (writeMembers display second)).withoutRunProperties := by
    simp only [Markup.math, bare_slot, hmembers]
  cases display with
  | inline => exact hmath
  | block =>
    simp (disch := decide) [writeFormula, Markup.mathParagraph, Markup.math, bare_slot, hmembers]

/-- **The scope of a style.**  The runs of a formula show its leaves, one by one and in order, with
the face, the alphabet and the kind of text that the styles around each leaf give to it; and that is
all that styles do, for two formulas that differ in nothing but their styles are written as
elements that differ in nothing but the properties of their runs. -/
theorem writeFormula_styleScope (display : Display) (formula : Formula) :
    List.Forall₂ Leaf.ShownBy (shownLeaves display formula) (writeFormula display formula).runs ∧
      ∀ other, DifferOnlyInStyles formula other →
        (writeFormula display formula).withoutRunProperties
          = (writeFormula display other).withoutRunProperties := by
  constructor
  · rw [runs_writeFormula, List.forall₂_map_right_iff]
    exact List.forall₂_same.mpr fun leaf _ => leaf.shownBy_run
  · intro other h
    exact withoutRunProperties_writeFormula display h

/-- An operator name and a word inside two styles, with a subscript and a group between the two, and
the same formula in other styles. -/
theorem writeFormula_styleScope_nested :
    let styled (outer inner word : TextStyle) : Formula :=
      [.styled outer [.sub (.identifier "x") (.styled inner [.group [.symbol .operator "∑",
        .operatorName "id", .text word "if"]])]]
    DifferOnlyInStyles (styled .fraktur .bold .normal) (styled .italic .monospace .script) ∧
      (writeFormula .block (styled .fraktur .bold .normal)).withoutRunProperties
        = (writeFormula .block (styled .italic .monospace .script)).withoutRunProperties := by
  intro styled
  have htags : DifferOnlyInStyles (styled .fraktur .bold .normal)
      (styled .italic .monospace .script) := rfl
  exact ⟨htags, (writeFormula_styleScope .block _).2 _ htags⟩

end OfficeMath
