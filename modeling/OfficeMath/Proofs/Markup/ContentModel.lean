import OfficeMath.Proofs.Markup.Pieces

/-!
# The content model of math markup

Which elements math markup consists of, and which of them may stand in which, in which order.  A
reader of the markup relies on this: it looks for the parts of a construction in a fixed order and
rejects a document in which one of them stands in another place.

* `IsObject` — the constructions, one after the other, each with its properties and its slots;
* `IsSlot` — a slot holds constructions and nothing else;
* `IsDocument` — the element of a whole formula.

Every formula is written as such a document (`writeFormula_isDocument`), also one that no reader
would make.  The content model speaks of the markup alone.  How many parts a delimited region and
how many cells an array must have depends on the formula, and is counted as in
`OfficeMath.Proofs.Markup.Pieces`.
-/

namespace OfficeMath

open Xml (Element)

namespace Markup

/-- A run: its properties, if there are any, and its text.  The properties are some of `nor`, `scr`
and `sty`, in this order. -/
inductive IsRun : Element → Prop
  | plain (text : String) : IsRun (slot "r" [(Element.math "t").withText text])
  | styled {properties : List Element} (alphabet face text : String) (hsome : properties ≠ [])
      (horder : properties.Sublist
        [.math "nor", .property "scr" alphabet, .property "sty" face]) :
    IsRun (slot "r" [slot "rPr" properties, (Element.math "t").withText text])

/-- The columns of an array.  They are left out if there are none. -/
inductive IsColumns : List Element → Prop
  | none : IsColumns []
  | some {columns : List Element} (hsome : columns ≠ [])
      (hcolumns : ∀ column ∈ columns, ∃ alignment, column = slot "mc" [slot "mcPr"
        [.property "count" "1", .property "mcJc" (alignmentCode alignment)]]) :
    IsColumns [slot "mcs" columns]

mutual

/-- A slot holds constructions and nothing else. -/
inductive IsSlot : (name : String) → Element → Prop
  | mk {name : String} {content : List Element} (objects : ∀ o ∈ content, IsObject o) :
    IsSlot name (slot name content)

/-- The constructions of math markup. -/
inductive IsObject : Element → Prop
  | run {o : Element} (h : IsRun o) : IsObject o
  | squareRoot {base : Element} (hbase : IsSlot "e" base) :
    IsObject (slot "rad" [slot "radPr" [.property "degHide" (onOff true)], slot "deg" [], base])
  | root {index base : Element} (hindex : IsSlot "deg" index) (hbase : IsSlot "e" base) :
    IsObject (slot "rad" [index, base])
  | phantom {base : Element} (hbase : IsSlot "e" base) :
    IsObject (slot "phant" [slot "phantPr" [.property "show" (onOff false)], base])
  | boxed {base : Element} (hbase : IsSlot "e" base) : IsObject (slot "borderBox" [base])
  | cancelled {flags : List BorderFlag} {base : Element} (horder : flags.Sublist BorderFlag.all)
      (hbase : IsSlot "e" base) :
    IsObject (slot "borderBox" [slot "borderBoxPr" (flags.map fun flag =>
      .property flag.name (onOff true)), base])
  | subscript {base lower : Element} (hbase : IsSlot "e" base) (hlower : IsSlot "sub" lower) :
    IsObject (slot "sSub" [base, lower])
  | superscript {base upper : Element} (hbase : IsSlot "e" base) (hupper : IsSlot "sup" upper) :
    IsObject (slot "sSup" [base, upper])
  | bothScripts {base lower upper : Element} (hbase : IsSlot "e" base)
      (hlower : IsSlot "sub" lower) (hupper : IsSlot "sup" upper) :
    IsObject (slot "sSubSup" [base, lower, upper])
  | fraction {style : FractionStyle} {numerator denominator : Element}
      (hnumerator : IsSlot "num" numerator) (hdenominator : IsSlot "den" denominator) :
    IsObject (slot "f" [slot "fPr" [.property "type" (fractionCode style)], numerator, denominator])
  | bar {position : Position} {base : Element} (hbase : IsSlot "e" base) :
    IsObject (slot "bar" [slot "barPr" [.property "pos" position.code], base])
  | accent {mark : String} {base : Element} (hbase : IsSlot "e" base) :
    IsObject (slot "acc" [slot "accPr" [.property "chr" mark], base])
  | groupCharacter {mark : String} {position : Position} {base : Element}
      (hbase : IsSlot "e" base) :
    IsObject (slot "groupChr" [slot "groupChrPr" [.property "chr" mark,
      .property "pos" position.code, .property "vertJc" position.opposite.code], base])
  | upperLimit {base limit : Element} (hbase : IsSlot "e" base) (hlimit : IsSlot "lim" limit) :
    IsObject (slot "limUpp" [base, limit])
  | lowerLimit {base limit : Element} (hbase : IsSlot "e" base) (hlimit : IsSlot "lim" limit) :
    IsObject (slot "limLow" [base, limit])
  /-- A region has at least one part, and a separator exactly if it has more than one. -/
  | delimited {opening closing : String} {separator : Option String} {parts : List Element}
      (hparts : ∀ part ∈ parts, IsSlot "e" part) (hsome : parts ≠ [])
      (hseparator : separator.isSome ↔ 1 < parts.length) :
    IsObject (slot "d" (slot "dPr" ([.property "begChr" opening] ++
      (separator.map (Element.property "sepChr")).toList ++
      [.property "endChr" closing, .math "grow"]) :: parts))
  | array {columns : List Element} {rows : List (List Element)} (hcolumns : IsColumns columns)
      (hcells : ∀ row ∈ rows, ∀ cell ∈ row, IsSlot "e" cell) :
    IsObject (slot "m" (slot "mPr" ([.property "baseJc" (alignmentCode .center),
      .property "plcHide" (onOff true)] ++ columns) :: rows.map (slot "mr")))
  /-- The slot of a limit that is hidden is empty. -/
  | nary {glyph : String} {location : LimitLocation} {hideLower hideUpper : Bool}
      {lower upper operand : Element} (hlower : IsSlot "sub" lower)
      (hnoLower : hideLower → lower = slot "sub" []) (hupper : IsSlot "sup" upper)
      (hnoUpper : hideUpper → upper = slot "sup" []) (hoperand : IsSlot "e" operand) :
    IsObject (slot "nary" [slot "naryPr" [.property "chr" glyph, .property "limLoc" location.code,
      .property "subHide" (onOff hideLower), .property "supHide" (onOff hideUpper)],
      lower, upper, operand])
  /-- A box holds a single run. -/
  | box {o : Element} (h : IsRun o) :
    IsObject (slot "box" [slot "boxPr" [.property "opEmu" (onOff true)], slot "e" [o]])

end

/-- The element of a whole formula.  In a block it stands in a centred paragraph. -/
inductive IsDocument : Display → Element → Prop
  | inline {formula : Element} (h : IsSlot "oMath" formula) : IsDocument .inline formula
  | block {formula : Element} (h : IsSlot "oMath" formula) :
    IsDocument .block (slot "oMathPara"
      [slot "oMathParaPr" [.property "jc" (alignmentCode .center)], formula])

/-! ## Constructions that are chosen by what they hold -/

variable {base lower upper : List Element}

/-- What a style runs is a run. -/
theorem isRun_run (style : RunStyle) (text : String) : IsRun (style.run text) := by
  rw [run_eq_slot]
  split
  · exact .plain text
  · next hsome =>
    obtain ⟨isText, alphabet, face⟩ := style
    refine .styled ((alphabet.map Alphabet.code).getD "") ((face.map Face.code).getD "") text ?_ ?_
    · simpa using hsome
    · cases isText <;> cases alphabet <;> cases face <;> simp [RunStyle.properties]

/-- A symbol is a run. -/
theorem isObject_symbol (style : RunStyle) (kind : SymbolClass) (glyph : String) :
    IsObject (symbol style kind glyph) := by
  unfold symbol
  split
  · exact .box (isRun_run style glyph)
  · exact .run (isRun_run style glyph)

/-- The strokes of a cancelled expression come in the order of the markup. -/
theorem isObject_cancelled (stroke : Stroke) (h : ∀ o ∈ base, IsObject o) :
    IsObject (cancelled stroke base) := by
  have horder : (BorderFlag.all.filter (cancelFlags stroke).contains).Sublist BorderFlag.all :=
    List.filter_sublist
  have hcancelled := IsObject.cancelled horder (.mk h)
  simpa only [cancelled, BorderFlags.propertyNames, List.map_map, Function.comp_def]
    using hcancelled

/-- A base with a mark or a limit above it. -/
theorem isObject_placeAbove (hbase : ∀ o ∈ base, IsObject o) (hupper : ∀ o ∈ upper, IsObject o)
    (above : Expr) : IsObject (placeAbove base above upper) := by
  have hlimit : IsObject (upperLimit base upper) := .upperLimit (.mk hbase) (.mk hupper)
  cases above with
  | symbol kind glyph =>
    simp only [placeAbove]
    split
    · exact .bar (.mk hbase)
    split
    · exact .accent (.mk hbase)
    split
    · exact .groupCharacter (.mk hbase)
    · exact hlimit
  | _ => exact hlimit

/-- A base with a mark or a limit below it. -/
theorem isObject_placeBelow (hbase : ∀ o ∈ base, IsObject o) (hlower : ∀ o ∈ lower, IsObject o)
    (below : Expr) : IsObject (placeBelow base below lower) := by
  have hlimit : IsObject (lowerLimit base lower) := .lowerLimit (.mk hbase) (.mk hlower)
  cases below with
  | symbol kind glyph =>
    simp only [placeBelow]
    split
    · exact .bar (.mk hbase)
    split
    · exact .accent (.mk hbase)
    split
    · exact .groupCharacter (.mk hbase)
    · exact hlimit
  | _ => exact hlimit

/-- An n-ary operator.  A limit that is missing is hidden. -/
theorem isObject_nary (glyph : String) (location : LimitLocation)
    {lower upper : Option (List Element)} {operand : List Element}
    (hlower : ∀ content ∈ lower, ∀ o ∈ content, IsObject o)
    (hupper : ∀ content ∈ upper, ∀ o ∈ content, IsObject o) (hoperand : ∀ o ∈ operand, IsObject o) :
    IsObject (nary glyph location lower upper operand) := by
  have shown {content : Option (List Element)} (h : ∀ shown ∈ content, ∀ o ∈ shown, IsObject o) :
      ∀ o ∈ content.getD [], IsObject o := by
    cases content with
    | none => simp
    | some shown => exact h shown rfl
  have hidden {name : String} {content : Option (List Element)} (h : content.isNone) :
      slot name (content.getD []) = slot name [] := by
    rw [Option.isNone_iff_eq_none.mp h, Option.getD_none]
  exact .nary (.mk (shown hlower)) hidden (.mk (shown hupper)) hidden (.mk hoperand)

/-- A delimited region has one part more than it has separators. -/
theorem isObject_delimited (opening closing : String) {separator : Option String}
    {parts : List (List Element)} (hparts : ∀ part ∈ parts, ∀ o ∈ part, IsObject o)
    (hsome : parts ≠ []) (hseparator : separator.isSome ↔ 1 < parts.length) :
    IsObject (delimited opening closing separator parts) := by
  refine .delimited (List.forall_mem_map.mpr fun part hpart => ?_) ?_ ?_
  · exact .mk (hparts part hpart)
  · simpa using hsome
  · simpa using hseparator

/-- An array holds a cell slot for every cell. -/
theorem isObject_array (alignments : List Alignment) {rows : List (List (List Element))}
    (h : ∀ row ∈ rows, ∀ cell ∈ row, ∀ o ∈ cell, IsObject o) :
    IsObject (array alignments rows) := by
  have hcells : ∀ row ∈ rows.map (List.map (slot "e")), ∀ cell ∈ row, IsSlot "e" cell := by
    simp only [List.forall_mem_map]
    exact fun row hrow cell hcell => .mk (h row hrow cell hcell)
  have hcolumns : IsColumns (if alignments.isEmpty then [] else [slot "mcs" (alignments.map fun a =>
      slot "mc" [slot "mcPr" [.property "count" "1", .property "mcJc" (alignmentCode a)]])]) := by
    split
    · exact .none
    · next hsome =>
      refine .some (by simpa using hsome) (List.forall_mem_map.mpr fun alignment _ => ?_)
      exact ⟨alignment, rfl⟩
  have harray := IsObject.array hcolumns hcells
  rwa [List.map_map] at harray

end Markup

/-! ## What is written -/

open Markup

section Write

variable {display : Display} {style : RunStyle}

/-- A list is a row of objects if its members are. -/
theorem isObject_writeAll {members : List Expr}
    (h : ∀ e ∈ members, ∀ o ∈ write display style e, IsObject o) :
    ∀ o ∈ writeAll display style members, IsObject o := by
  intro o ho
  rw [writeAll_eq_flatMap] at ho
  obtain ⟨e, he, hin⟩ := List.mem_flatMap.mp ho
  exact h e he o hin

/-- So are the parts of a region. -/
theorem isObject_writeParts {content : List Item}
    (h : ∀ e, Item.expr e ∈ content → ∀ o ∈ write display style e, IsObject o) :
    ∀ part ∈ (writeParts display style content).1 :: (writeParts display style content).2,
      ∀ o ∈ part, IsObject o := by
  induction content with
  | nil => simp [writeParts]
  | cons item rest ih =>
    have others := ih fun e he => h e (List.mem_cons_of_mem _ he)
    rw [List.forall_mem_cons] at others
    cases item with
    | separator glyph => simpa [writeParts] using others
    | expr e =>
      have hfirst := h e List.mem_cons_self
      refine List.forall_mem_cons.mpr ⟨?_, others.2⟩
      exact List.forall_mem_append.mpr ⟨hfirst, others.1⟩

/-- There is a first separator exactly if there is more than one part. -/
theorem isSome_firstSeparator? (content : List Item) :
    (firstSeparator? content).isSome ↔ 0 < separatorCount content := by
  induction content with
  | nil => simp [firstSeparator?, separatorCount]
  | cons item rest ih => cases item <;> simp [firstSeparator?, separatorCount, ih]

/-- So is a limit that is shown. -/
theorem isObject_shownLimit {limit : Expr} (h : ∀ o ∈ write display style limit, IsObject o) :
    ∀ content ∈ shownLimit limit (write display style limit), ∀ o ∈ content, IsObject o := by
  unfold shownLimit
  split
  · simp
  · simpa using h

/-- Every expression is written as constructions, and so are the limits that it has as an n-ary
operator. -/
theorem isObject_write (e : Expr) (style : RunStyle) :
    (∀ o ∈ write display style e, IsObject o) ∧
      (∀ content ∈ (writeLimits display style e).1, ∀ o ∈ content, IsObject o) ∧
      ∀ content ∈ (writeLimits display style e).2, ∀ o ∈ content, IsObject o := by
  have one {o : Element} (h : IsObject o) : ∀ o' ∈ [o], IsObject o' := List.forall_mem_singleton.mpr h
  have none : ∀ content ∈ (none : Option (List Element)), ∀ o ∈ content, IsObject o := by simp
  induction e generalizing style with
  | number | identifier | text | space | operatorName =>
    exact ⟨one (.run (isRun_run _ _)), none, none⟩
  | symbol kind glyph => exact ⟨one (isObject_symbol style kind glyph), none, none⟩
  | group members ih =>
    refine ⟨?_, none, none⟩
    match members, ih with
    | [], _ => exact one (.run (isRun_run _ _))
    | [e], ih => exact (ih e (by simp) style).1
    | [first, second], ih =>
      obtain ⟨hfirst, hlower, hupper⟩ := ih first (by simp) style
      have hsecond := (ih second (by simp) style).1
      simp only [write, writeGroup]
      split
      · exact one (isObject_nary _ _ hlower hupper hsecond)
      · exact List.forall_mem_append.mpr ⟨hfirst, hsecond⟩
    | first :: second :: third :: rest, ih =>
      have all := isObject_writeAll fun e he => (ih e he style).1
      simpa only [write, writeGroup, writeAll, List.append_assoc] using all
  | sqrt base ih => exact ⟨one (.squareRoot (.mk (ih style).1)), none, none⟩
  | root index base ihIndex ihBase =>
    exact ⟨one (.root (.mk (ihIndex style).1) (.mk (ihBase style).1)), none, none⟩
  | phantom inner ih => exact ⟨one (.phantom (.mk (ih style).1)), none, none⟩
  | boxed inner ih => exact ⟨one (.boxed (.mk (ih style).1)), none, none⟩
  | cancel stroke inner ih => exact ⟨one (isObject_cancelled stroke (ih style).1), none, none⟩
  | scaled factor inner ih => exact ⟨(ih style).1, none, none⟩
  | sub base lower ihBase ihLower =>
    have hlower := (ihLower style).1
    exact ⟨one (.subscript (.mk (ihBase style).1) (.mk hlower)), isObject_shownLimit hlower, none⟩
  | super base upper ihBase ihUpper =>
    have hupper := (ihUpper style).1
    exact ⟨one (.superscript (.mk (ihBase style).1) (.mk hupper)), none, isObject_shownLimit hupper⟩
  | subSup base lower upper ihBase ihLower ihUpper =>
    have hlower := (ihLower style).1
    have hupper := (ihUpper style).1
    exact ⟨one (.bothScripts (.mk (ihBase style).1) (.mk hlower) (.mk hupper)),
      isObject_shownLimit hlower, isObject_shownLimit hupper⟩
  | fraction kind numerator denominator ihNumerator ihDenominator =>
    exact ⟨one (.fraction (.mk (ihNumerator style).1) (.mk (ihDenominator style).1)), none, none⟩
  | «over» movable base above ihBase ihAbove =>
    have hbase := (ihBase style).1
    have habove := (ihAbove style).1
    refine ⟨?_, none, isObject_shownLimit habove⟩
    simp only [write]
    split
    · exact one (.superscript (.mk hbase) (.mk habove))
    · exact one (isObject_placeAbove hbase habove above)
  | under movable base below ihBase ihBelow =>
    have hbase := (ihBase style).1
    have hbelow := (ihBelow style).1
    refine ⟨?_, isObject_shownLimit hbelow, none⟩
    simp only [write]
    split
    · exact one (.subscript (.mk hbase) (.mk hbelow))
    · exact one (isObject_placeBelow hbase hbelow below)
  | underOver movable base below above ihBase ihBelow ihAbove =>
    have hbase := (ihBase style).1
    have hbelow := (ihBelow style).1
    have habove := (ihAbove style).1
    refine ⟨?_, isObject_shownLimit hbelow, isObject_shownLimit habove⟩
    simp only [write]
    split
    · exact one (.bothScripts (.mk hbase) (.mk hbelow) (.mk habove))
    · exact one (isObject_placeAbove (one (isObject_placeBelow hbase hbelow below)) habove above)
  | delimited opening closing content ih =>
    have hparts := isObject_writeParts fun e he => (ih e he style).1
    refine ⟨one (isObject_delimited opening closing hparts (by simp) ?_), none, none⟩
    rw [isSome_firstSeparator?, List.length_cons, length_writeParts]
    omega
  | array alignments rows ih =>
    refine ⟨one (isObject_array alignments ?_), none, none⟩
    simp only [writeRows_eq_map, writeCells_eq_map, List.forall_mem_map]
    intro row hrow cell hcell
    exact isObject_writeAll fun e he => (ih row hrow cell hcell e he style).1
  | styled inner members ih =>
    exact ⟨isObject_writeAll fun e he => (ih e he (style.within inner)).1, none, none⟩

end Write

/-- The members of a formula are written as constructions. -/
theorem isObject_writeMembers (display : Display) (formula : Formula) :
    ∀ o ∈ writeMembers display formula, IsObject o := by
  intro o ho
  obtain ⟨member, -, hin⟩ := List.mem_flatMap.mp ho
  cases member with
  | single e => exact (isObject_write e .default).1 o hin
  | applied head operator operand =>
    obtain rfl := List.mem_singleton.mp hin
    obtain ⟨hlower, hupper⟩ := (isObject_write operator .default).2
    exact isObject_nary _ _ hlower hupper (isObject_write operand .default).1

/-- **Every formula is written as a document.**  Its markup keeps to the content model; a delimited
region of it has one part more than the region of the formula has separators, and an array has the
columns and cells of the array of the formula.  Neither is lost or repeated. -/
theorem writeFormula_isDocument (display : Display) (formula : Formula) :
    IsDocument display (writeFormula display formula) ∧
      (∀ opening closing separator parts,
        (writeFormula display formula).pieces.count (.region opening closing separator parts)
          = (piecesOf formula).count (.region opening closing separator parts)) ∧
      ∀ columns cells,
        (writeFormula display formula).pieces.count (.grid columns cells)
          = (piecesOf formula).count (.grid columns cells) := by
  have hmath : IsSlot "oMath" (math (writeMembers display formula)) :=
    .mk (isObject_writeMembers display formula)
  have hregion opening closing separator parts :
      (Piece.region opening closing separator parts).Visible := by
    rintro text ⟨⟩
  have hgrid columns cells : (Piece.grid columns cells).Visible := by
    rintro text ⟨⟩
  refine ⟨?_, fun opening closing separator parts =>
    count_pieces (hregion opening closing separator parts) display formula,
    fun columns cells => count_pieces (hgrid columns cells) display formula⟩
  cases display with
  | inline => exact .inline hmath
  | block => exact .block hmath

end OfficeMath
