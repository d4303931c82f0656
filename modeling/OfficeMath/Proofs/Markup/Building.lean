import OfficeMath.Converter
import OfficeMath.Proofs.Formula.Nodes
import OfficeMath.Proofs.Text.Characters

/-!
# Markup is built from few pieces

Whatever a formula is written as, it is put together from slots, properties and the texts of runs.
So a property of elements that follows from these pieces (`Markup.Structural`) needs no look at the
many constructions of the markup: it holds of all that an expression is written as if the texts
that the expression shows admit it (`Markup.Structural.write`).  All other strings in the markup are
names and codes of letters and digits (`Markup.IsCode`), or blanks.
-/

namespace OfficeMath

open Xml (Element)

namespace Markup

/-- A word of letters, digits and hyphens, as all names and codes of the markup are. -/
def IsCode (word : String) : Prop :=
  word ≠ "" ∧ ∀ c ∈ word.toList, c.isAlphanum ∨ c = '-'

instance (word : String) : Decidable (IsCode word) := inferInstanceAs (Decidable (_ ∧ _))

/-- What holds of the letters, the digits and the hyphen holds of the characters of a code. -/
theorem IsCode.forall_mem {word : String} (h : IsCode word) {p : Char → Prop}
    (hp : ∀ n < 128, (Char.ofNat n).isAlphanum ∨ Char.ofNat n = '-' → p (Char.ofNat n)) :
    ∀ c ∈ word.toList, p c := by
  intro c hc
  have hcode := h.2 c hc
  have hascii : c.toNat < 128 := by
    rcases hcode with halphanum | rfl
    · exact toNat_lt_of_isAlphanum halphanum
    · decide
  exact forall_ascii (fun c => c.isAlphanum ∨ c = '-' → p c) hp hascii hcode

/-- The value of a switch is a code. -/
theorem isCode_onOff (value : Bool) : IsCode (onOff value) := by
  cases value <;> decide

theorem isCode_location (location : LimitLocation) : IsCode location.code := by
  cases location <;> decide

theorem isCode_position (position : Position) : IsCode position.code := by
  cases position <;> decide

theorem isCode_alignment (alignment : Alignment) : IsCode (alignmentCode alignment) := by
  cases alignment <;> decide

theorem isCode_fraction (style : FractionStyle) : IsCode (fractionCode style) := by
  cases style <;> decide

theorem isCode_alphabet (alphabet : Alphabet) : IsCode alphabet.code := by
  cases alphabet <;> decide

theorem isCode_face (face : Face) : IsCode face.code := by
  cases face <;> decide

/-- The flags of a stroke are named by codes. -/
theorem isCode_cancelled (stroke : Stroke) :
    ∀ name ∈ (cancelFlags stroke).propertyNames, IsCode name := by
  have hall (flag : BorderFlag) : IsCode flag.name := by cases flag <;> decide
  intro name hname
  obtain ⟨flag, -, rfl⟩ := List.mem_map.mp hname
  exact hall flag

/-- A property of elements that comes down to the pieces of an element: to what is in a slot, to
the value of a property, to the text of a run.  The texts that admit it are those with `p`, and
codes and blanks are among them. -/
structure Structural (P : Element → Prop) (p : String → Prop) : Prop where
  slot {name : String} (hname : IsCode name) (content : List Element) :
    P (slot name content) ↔ ∀ e ∈ content, P e
  property {name : String} (hname : IsCode name) (value : String) :
    P (.property name value) ↔ p value
  text (content : String) : P ((Element.math "t").withText content) ↔ p content
  code {word : String} (hword : IsCode word) : p word
  zeroWidth : p zeroWidthSpace
  space (width : Float32) : p (spaceGlyph width)

namespace Structural

variable {P : Element → Prop} {p : String → Prop} (h : Structural P p)

include h

/-! ## Runs -/

/-- The properties of a run state codes. -/
theorem properties (style : RunStyle) : ∀ e ∈ style.properties, P e := by
  have hnor : P (Element.math "nor") := (h.slot (by decide) []).mpr (by simp)
  obtain ⟨isText, alphabet, face⟩ := style
  intro e he
  simp only [RunStyle.properties, List.mem_append, Option.mem_toList, Option.map_eq_some_iff] at he
  rcases he with (he | ⟨alphabet, -, rfl⟩) | ⟨face, -, rfl⟩
  · cases isText with
    | true => exact List.mem_singleton.mp he ▸ hnor
    | false => cases he
  · exact (h.property (by decide) _).mpr (h.code (isCode_alphabet alphabet))
  · exact (h.property (by decide) _).mpr (h.code (isCode_face face))

/-- A run has the property if its text admits it. -/
theorem run (style : RunStyle) (text : String) : P (style.run text) ↔ p text := by
  have hproperties : P ((Element.math "rPr").withChildren style.properties) :=
    (h.slot (by decide) _).mpr (h.properties style)
  unfold RunStyle.run
  dsimp only
  split
  · exact (h.slot (by decide) [_]).trans (by simp [h.text])
  · exact (h.slot (by decide) [_, _]).trans (by simp [h.text, hproperties])

/-! ## Constructions -/

variable {base lower upper : List Element}

/-- A symbol is a run, perhaps in a box. -/
theorem symbol (style : RunStyle) (kind : SymbolClass) (glyph : String) :
    P (symbol style kind glyph) ↔ p glyph := by
  unfold Markup.symbol
  split
  · simp (disch := decide) [h.slot, h.property, h.code, h.run]
  · exact h.run style glyph

/-- Strokes do not matter to a structural property. -/
theorem cancelled (stroke : Stroke) (hbase : ∀ e ∈ base, P e) : P (cancelled stroke base) := by
  have hproperties : ∀ name ∈ (cancelFlags stroke).propertyNames,
      P (.property name (onOff true)) := by
    intro name hname
    exact (h.property (isCode_cancelled stroke name hname) _).mpr (h.code (isCode_onOff true))
  refine (h.slot (by decide) _).mpr ?_
  simpa (disch := decide) [h.slot] using ⟨hproperties, hbase⟩

/-- A bar, an accent or a stretched character on a base. -/
theorem bar (position : Position) (hbase : ∀ e ∈ base, P e) : P (bar position base) := by
  have hcode := h.code (isCode_position position)
  simpa (disch := decide) [Markup.bar, h.slot, h.property, hcode] using hbase

/-- An accent is built from its mark and its base. -/
theorem accent {mark : String} (hmark : p mark) (hbase : ∀ e ∈ base, P e) :
    P (accent mark base) := by
  simpa (disch := decide) [Markup.accent, h.slot, h.property, hmark] using hbase

/-- So is a stretched mark, at either position. -/
theorem groupCharacter {mark : String} (hmark : p mark) (position : Position)
    (hbase : ∀ e ∈ base, P e) : P (groupCharacter mark position base) := by
  have hcode := h.code (isCode_position position)
  have hopposite := h.code (isCode_position position.opposite)
  simpa (disch := decide) [Markup.groupCharacter, h.slot, h.property, hmark, hcode, hopposite]
    using hbase

/-- A base with a mark or a limit above it. -/
theorem placeAbove {above : Expr} (hbase : ∀ e ∈ base, P e) (hupper : ∀ e ∈ upper, P e)
    (habove : ∀ shown ∈ above.ownTexts, p shown) : P (placeAbove base above upper) := by
  have hlimit : P (upperLimit base upper) := by
    simpa (disch := decide) [upperLimit, h.slot] using ⟨hbase, hupper⟩
  cases above with
  | symbol kind glyph =>
    have hglyph : p glyph := habove glyph List.mem_cons_self
    simp only [Markup.placeAbove]
    split
    · exact h.bar .top hbase
    · split
      · exact h.accent hglyph hbase
      · split
        · exact h.groupCharacter hglyph .top hbase
        · exact hlimit
  | _ => exact hlimit

/-- A base with a mark or a limit below it. -/
theorem placeBelow {below : Expr} (hbase : ∀ e ∈ base, P e) (hlower : ∀ e ∈ lower, P e)
    (hbelow : ∀ shown ∈ below.ownTexts, p shown) : P (placeBelow base below lower) := by
  have hlimit : P (lowerLimit base lower) := by
    simpa (disch := decide) [lowerLimit, h.slot] using ⟨hbase, hlower⟩
  cases below with
  | symbol kind glyph =>
    have hglyph : p glyph := hbelow glyph List.mem_cons_self
    simp only [Markup.placeBelow]
    split
    · exact h.bar .bottom hbase
    · split
      · exact h.accent hglyph hbase
      · split
        · exact h.groupCharacter hglyph .bottom hbase
        · exact hlimit
  | _ => exact hlimit

/-- A delimited region shows its delimiters and its separator, and holds its parts. -/
theorem delimited {opening closing : String} {separator : Option String}
    {parts : List (List Element)} (hopening : p opening) (hclosing : p closing)
    (hseparator : ∀ glyph ∈ separator, p glyph) (hparts : ∀ part ∈ parts, ∀ e ∈ part, P e) :
    P (delimited opening closing separator parts) := by
  refine (h.slot (by decide) _).mpr (List.forall_mem_cons.mpr ⟨?_, ?_⟩)
  · cases separator with
    | none => simp (disch := decide) [h.slot, h.property, hopening, hclosing]
    | some glyph =>
      simp (disch := decide) [h.slot, h.property, hopening, hclosing, hseparator glyph rfl]
  · intro e he
    obtain ⟨part, hpart, rfl⟩ := List.mem_map.mp he
    exact (h.slot (by decide) _).mpr (hparts part hpart)

/-- An array holds its cells. -/
theorem array (alignments : List Alignment) {rows : List (List (List Element))}
    (hrows : ∀ row ∈ rows, ∀ cell ∈ row, ∀ e ∈ cell, P e) : P (array alignments rows) := by
  have halignment (alignment : Alignment) : p (alignmentCode alignment) :=
    h.code (isCode_alignment alignment)
  refine (h.slot (by decide) _).mpr (List.forall_mem_cons.mpr ⟨?_, ?_⟩)
  · refine (h.slot (by decide) _).mpr (List.forall_mem_append.mpr ⟨?_, ?_⟩)
    · simp (disch := decide) [h.property, h.code]
    · split <;> simp (disch := decide) [h.slot, h.property, h.code, halignment]
  · intro e he
    obtain ⟨row, hrow, rfl⟩ := List.mem_map.mp he
    refine (h.slot (by decide) _).mpr fun e he => ?_
    obtain ⟨cell, hcell, rfl⟩ := List.mem_map.mp he
    exact (h.slot (by decide) _).mpr (hrows row hrow cell hcell)

/-- An n-ary operator shows its glyph, and holds its limits and its operand. -/
theorem nary {glyph : String} (location : LimitLocation) {lower upper : Option (List Element)}
    {operand : List Element} (hglyph : p glyph) (hlower : ∀ content ∈ lower, ∀ e ∈ content, P e)
    (hupper : ∀ content ∈ upper, ∀ e ∈ content, P e) (hoperand : ∀ e ∈ operand, P e) :
    P (nary glyph location lower upper operand) := by
  have hlocation := h.code (isCode_location location)
  have hhidden (value : Bool) := h.code (isCode_onOff value)
  have limit {content : Option (List Element)} (hshown : ∀ shown ∈ content, ∀ e ∈ shown, P e) :
      ∀ e ∈ content.getD [], P e := by
    cases content with
    | none => simp
    | some shown => exact hshown shown rfl
  simpa (disch := decide) [Markup.nary, h.slot, h.property, hglyph, hlocation, hhidden]
    using ⟨limit hlower, limit hupper, hoperand⟩

end Structural

end Markup

/-! ## Expressions -/

/-- The elements of a list are those of its members in a row. -/
theorem writeAll_eq_flatMap (display : Display) (style : RunStyle) (members : List Expr) :
    writeAll display style members = members.flatMap (write display style) := by
  induction members with
  | nil => rfl
  | cons e rest ih => simp [writeAll, ih]

/-- The cells of a row are written one by one. -/
theorem writeCells_eq_map (display : Display) (style : RunStyle) (row : List (List Expr)) :
    writeCells display style row = row.map (writeAll display style) := by
  induction row with
  | nil => rfl
  | cons cell rest ih => simp [writeCells, ih]

/-- The rows of an array are written one by one. -/
theorem writeRows_eq_map (display : Display) (style : RunStyle) (rows : List (List (List Expr))) :
    writeRows display style rows = rows.map (writeCells display style) := by
  induction rows with
  | nil => rfl
  | cons row rest ih => simp [writeRows, ih]

/-- The separator that is shown is one of the region. -/
theorem mem_separatorsOf_firstSeparator? {content : List Item} {glyph : String}
    (h : firstSeparator? content = some glyph) : glyph ∈ separatorsOf content := by
  induction content with
  | nil => cases h
  | cons item rest ih =>
    cases item with
    | separator other => simpa [separatorsOf] using .inl (Option.some.inj h).symm
    | expr e => simpa [separatorsOf] using ih h

namespace Expr

/-- The texts that an expression shows, at any depth, have a property. -/
def Shows (p : String → Prop) (e : Expr) : Prop :=
  e.Throughout fun node => ∀ shown ∈ node.ownTexts, p shown

variable {p : String → Prop}

/-- The glyph of an n-ary operator is one of its texts. -/
theorem Shows.naryGlyph {e : Expr} (h : e.Shows p) {glyph : String}
    (hglyph : e.naryGlyph? = some glyph) : p glyph := by
  cases e with
  | symbol kind shown =>
    have hshown := h.node
    simp only [naryGlyph?, Option.ite_none_right_eq_some, Option.some.injEq] at hglyph
    obtain ⟨-, rfl⟩ := hglyph
    exact hshown shown List.mem_cons_self
  | _ => cases hglyph

/-- The glyph of a large operator is a text that the expression shows. -/
theorem Shows.naryHead {e : Expr} (h : e.Shows p) {display : Display} {head : NaryHead}
    (hhead : e.naryHead? display = some head) : p head.glyph := by
  have bare {operator : Expr} (hoperator : operator.Shows p) {place : String → Markup.LimitLocation}
      (hsome : (operator.naryGlyph?.map fun glyph => ⟨glyph, place glyph⟩) = some head) :
      p head.glyph := by
    obtain ⟨glyph, hglyph, rfl⟩ := Option.map_eq_some_iff.mp hsome
    exact hoperator.naryGlyph hglyph
  unfold naryHead? at hhead
  split at hhead
  · exact bare ((throughout_parts rfl).mp h).2.1 hhead
  · exact bare ((throughout_parts rfl).mp h).2.1 hhead
  · exact bare ((throughout_three rfl).mp h).2.1 hhead
  · exact bare ((throughout_parts rfl).mp h).2.1 hhead
  · exact bare ((throughout_parts rfl).mp h).2.1 hhead
  · exact bare ((throughout_three rfl).mp h).2.1 hhead
  · exact bare h hhead

end Expr

namespace Markup.Structural

variable {P : Element → Prop} {p : String → Prop} (h : Structural P p) {display : Display}
  {style : RunStyle}

include h

/-- Identifiers without letters show a blank. -/
theorem identifier {shown : String} (hshown : p shown) :
    P (style.run (if shown.isEmpty then zeroWidthSpace else shown)) := by
  rw [h.run]
  split
  · exact h.zeroWidth
  · exact hshown

omit h in
/-- A list is built from what its members are written as. -/
theorem writeAll {members : List Expr}
    (hmembers : ∀ e ∈ members, ∀ written ∈ OfficeMath.write display style e, P written) :
    ∀ written ∈ OfficeMath.writeAll display style members, P written := by
  intro written hwritten
  rw [writeAll_eq_flatMap] at hwritten
  obtain ⟨e, he, hin⟩ := List.mem_flatMap.mp hwritten
  exact hmembers e he written hin

omit h in
/-- The parts of a region are built from its items. -/
theorem writeParts {content : List Item}
    (hcontent : ∀ e, Item.expr e ∈ content →
      ∀ written ∈ OfficeMath.write display style e, P written) :
    ∀ part ∈ (OfficeMath.writeParts display style content).1 ::
        (OfficeMath.writeParts display style content).2, ∀ written ∈ part, P written := by
  induction content with
  | nil => simp [OfficeMath.writeParts]
  | cons item rest ih =>
    have others := ih fun e he => hcontent e (List.mem_cons_of_mem _ he)
    rw [List.forall_mem_cons] at others
    cases item with
    | separator glyph => simpa [OfficeMath.writeParts] using others
    | expr e =>
      have hfirst := hcontent e List.mem_cons_self
      refine List.forall_mem_cons.mpr ⟨?_, others.2⟩
      exact List.forall_mem_append.mpr ⟨hfirst, others.1⟩

omit h in
/-- A limit that is shown is built as it is written. -/
theorem shownLimit {limit : Expr}
    (hlimit : ∀ written ∈ OfficeMath.write display style limit, P written) :
    ∀ content ∈ OfficeMath.shownLimit limit (OfficeMath.write display style limit),
      ∀ e ∈ content, P e := by
  unfold OfficeMath.shownLimit
  split
  · simp
  · simpa using hlimit

/-- **A structural property holds of all that an expression is written as**, and of the limits of an
n-ary operator, if the texts that the expression shows admit it. -/
theorem write (display : Display) {e : Expr} (he : e.Shows p) (style : RunStyle) :
    (∀ written ∈ OfficeMath.write display style e, P written) ∧
      (∀ content ∈ (writeLimits display style e).1, ∀ written ∈ content, P written) ∧
      ∀ content ∈ (writeLimits display style e).2, ∀ written ∈ content, P written := by
  induction e generalizing style with
  | number shown | operatorName shown =>
    have hshown : p shown := he.node shown List.mem_cons_self
    simp [OfficeMath.write, writeLimits, h.run, hshown]
  | text textStyle shown =>
    have hshown : p shown := he.node shown List.mem_cons_self
    simp [OfficeMath.write, writeLimits, h.run, hshown]
  | identifier shown =>
    have hshown : p shown := he.node shown List.mem_cons_self
    exact ⟨List.forall_mem_singleton.mpr (h.identifier hshown), by simp [writeLimits]⟩
  | symbol kind glyph =>
    have hshown : p glyph := he.node glyph List.mem_cons_self
    simp [OfficeMath.write, writeLimits, h.symbol, hshown]
  | space width => simp [OfficeMath.write, writeLimits, h.run, h.space width]
  | group members ih =>
    replace ih := fun e hin => ih e hin (((Expr.throughout_members rfl).mp he).2 e hin)
    refine ⟨?_, by simp [writeLimits]⟩
    match members, he, ih with
    | [], _, _ => simp [OfficeMath.write, writeGroup, h.run, h.zeroWidth]
    | [e], _, ih => exact (ih e (by simp) style).1
    | [first, second], he, ih =>
      obtain ⟨hfirst, hlower, hupper⟩ := ih first (by simp) style
      have hsecond := (ih second (by simp) style).1
      simp only [OfficeMath.write, writeGroup]
      split
      · next head hhead =>
        have hoperator : first.Shows p := ((Expr.throughout_members rfl).mp he).2 first (by simp)
        have hnary := h.nary head.location (hoperator.naryHead hhead) hlower hupper hsecond
        exact List.forall_mem_singleton.mpr hnary
      · exact List.forall_mem_append.mpr ⟨hfirst, hsecond⟩
    | first :: second :: third :: rest, _, ih =>
      have all := writeAll fun e hin => (ih e hin style).1
      simpa only [OfficeMath.write, writeGroup, OfficeMath.writeAll, List.append_assoc] using all
  | sqrt base ih =>
    refine ⟨?_, by simp [writeLimits]⟩
    have hbase := (ih ((Expr.throughout_part rfl).mp he).2 style).1
    simpa (disch := decide) [OfficeMath.write, sqrt, h.slot, h.property, h.code] using hbase
  | root index base ihIndex ihBase =>
    obtain ⟨-, hindex, hbase⟩ := (Expr.throughout_parts rfl).mp he
    refine ⟨?_, by simp [writeLimits]⟩
    simpa (disch := decide) [OfficeMath.write, root, h.slot]
      using ⟨(ihIndex hindex style).1, (ihBase hbase style).1⟩
  | phantom inner ih =>
    refine ⟨?_, by simp [writeLimits]⟩
    have hinner := (ih ((Expr.throughout_part rfl).mp he).2 style).1
    simpa (disch := decide) [OfficeMath.write, phantom, h.slot, h.property, h.code] using hinner
  | boxed inner ih =>
    refine ⟨?_, by simp [writeLimits]⟩
    have hinner := (ih ((Expr.throughout_part rfl).mp he).2 style).1
    simpa (disch := decide) [OfficeMath.write, boxed, h.slot] using hinner
  | cancel stroke inner ih =>
    refine ⟨?_, by simp [writeLimits]⟩
    have hinner := (ih ((Expr.throughout_part rfl).mp he).2 style).1
    exact List.forall_mem_singleton.mpr (h.cancelled stroke hinner)
  | scaled factor inner ih =>
    exact ⟨(ih ((Expr.throughout_part rfl).mp he).2 style).1, by simp [writeLimits]⟩
  | sub base lower ihBase ihLower =>
    obtain ⟨-, hbase, hlower⟩ := (Expr.throughout_parts rfl).mp he
    have hwritten := (ihLower hlower style).1
    refine ⟨?_, shownLimit hwritten, by simp [writeLimits]⟩
    simpa (disch := decide) [OfficeMath.write, subscript, h.slot]
      using ⟨(ihBase hbase style).1, hwritten⟩
  | super base upper ihBase ihUpper =>
    obtain ⟨-, hbase, hupper⟩ := (Expr.throughout_parts rfl).mp he
    have hwritten := (ihUpper hupper style).1
    refine ⟨?_, by simp [writeLimits], shownLimit hwritten⟩
    simpa (disch := decide) [OfficeMath.write, superscript, h.slot]
      using ⟨(ihBase hbase style).1, hwritten⟩
  | subSup base lower upper ihBase ihLower ihUpper =>
    obtain ⟨-, hbase, hlower, hupper⟩ := (Expr.throughout_three rfl).mp he
    have hbelow := (ihLower hlower style).1
    have habove := (ihUpper hupper style).1
    refine ⟨?_, shownLimit hbelow, shownLimit habove⟩
    simpa (disch := decide) [OfficeMath.write, bothScripts, h.slot]
      using ⟨(ihBase hbase style).1, hbelow, habove⟩
  | fraction kind numerator denominator ihNumerator ihDenominator =>
    obtain ⟨-, hnumerator, hdenominator⟩ := (Expr.throughout_parts rfl).mp he
    have hcode := h.code (isCode_fraction kind)
    refine ⟨?_, by simp [writeLimits]⟩
    simpa (disch := decide) [OfficeMath.write, fraction, h.slot, h.property, hcode]
      using ⟨(ihNumerator hnumerator style).1, (ihDenominator hdenominator style).1⟩
  | «over» movable base above ihBase ihAbove =>
    obtain ⟨-, hbase, habove⟩ := (Expr.throughout_parts rfl).mp he
    have hwritten := (ihBase hbase style).1
    have hmark := (ihAbove habove style).1
    refine ⟨?_, by simp [writeLimits], shownLimit hmark⟩
    simp only [OfficeMath.write]
    split
    · simpa (disch := decide) [superscript, h.slot] using ⟨hwritten, hmark⟩
    · exact List.forall_mem_singleton.mpr (h.placeAbove hwritten hmark habove.node)
  | under movable base below ihBase ihBelow =>
    obtain ⟨-, hbase, hbelow⟩ := (Expr.throughout_parts rfl).mp he
    have hwritten := (ihBase hbase style).1
    have hmark := (ihBelow hbelow style).1
    refine ⟨?_, shownLimit hmark, by simp [writeLimits]⟩
    simp only [OfficeMath.write]
    split
    · simpa (disch := decide) [subscript, h.slot] using ⟨hwritten, hmark⟩
    · exact List.forall_mem_singleton.mpr (h.placeBelow hwritten hmark hbelow.node)
  | underOver movable base below above ihBase ihBelow ihAbove =>
    obtain ⟨-, hbase, hbelow, habove⟩ := (Expr.throughout_three rfl).mp he
    have hwritten := (ihBase hbase style).1
    have hlower := (ihBelow hbelow style).1
    have hupper := (ihAbove habove style).1
    refine ⟨?_, shownLimit hlower, shownLimit hupper⟩
    simp only [OfficeMath.write]
    split
    · simpa (disch := decide) [bothScripts, h.slot] using ⟨hwritten, hlower, hupper⟩
    · have hplaced := List.forall_mem_singleton.mpr (h.placeBelow hwritten hlower hbelow.node)
      exact List.forall_mem_singleton.mpr (h.placeAbove hplaced hupper habove.node)
  | delimited opening closing content ih =>
    obtain ⟨hown, hcontent⟩ := (Expr.throughout_items rfl).mp he
    simp only [Expr.ownTexts, List.forall_mem_cons] at hown
    obtain ⟨hopening, hclosing, hseparators⟩ := hown
    have hparts := writeParts fun e hin => (ih e hin (hcontent e hin) style).1
    have hseparator : ∀ glyph ∈ firstSeparator? content, p glyph := fun glyph hglyph =>
      hseparators glyph (mem_separatorsOf_firstSeparator? hglyph)
    refine ⟨?_, by simp [writeLimits]⟩
    exact List.forall_mem_singleton.mpr (h.delimited hopening hclosing hseparator hparts)
  | array alignments rows ih =>
    obtain ⟨-, hcells⟩ := (Expr.throughout_rows rfl).mp he
    refine ⟨?_, by simp [writeLimits]⟩
    refine List.forall_mem_singleton.mpr (h.array alignments ?_)
    simp only [writeRows_eq_map, writeCells_eq_map, List.forall_mem_map]
    intro row hrow cell hcell
    have inner (e : Expr) (hin : e ∈ cell) := ih row hrow cell hcell e hin
    exact writeAll fun e hin => (inner e hin (hcells row hrow cell hcell e hin) style).1
  | styled inner members ih =>
    obtain ⟨-, hmembers⟩ := (Expr.throughout_members rfl).mp he
    have all := writeAll fun e hin => (ih e hin (hmembers e hin) (style.within inner)).1
    exact ⟨all, by simp [writeLimits]⟩

/-- The n-ary operators of a formula with their operands, and all other members. -/
theorem writeMembers (display : Display) {formula : Formula}
    (hformula : ∀ e ∈ formula, e.Shows p) :
    ∀ written ∈ OfficeMath.writeMembers display formula, P written := by
  have hsingle {e : Expr} (he : e.Shows p) :
      ∀ written ∈ Member.write display (.single e), P written := (h.write display he .default).1
  have happlied {operator operand : Expr} {head : NaryHead} (hoperator : operator.Shows p)
      (hhead : operator.naryHead? display = some head) (hoperand : operand.Shows p) :
      ∀ written ∈ Member.write display (.applied head operator operand), P written := by
    obtain ⟨-, hlower, hupper⟩ := h.write display hoperator .default
    have hwritten := (h.write display hoperand .default).1
    have hglyph := hoperator.naryHead hhead
    exact List.forall_mem_singleton.mpr (h.nary head.location hglyph hlower hupper hwritten)
  have hempty : Expr.empty.Shows p := by
    refine (Expr.throughout_members rfl).mpr ⟨?_, by simp⟩
    simp [Expr.empty, Expr.ownTexts]
  unfold OfficeMath.writeMembers
  induction formula using pairOperands.induct display with
  | case1 => simp [pairOperands]
  | case2 e head hhead =>
    have he := hformula e List.mem_cons_self
    simpa [pairOperands, hhead] using happlied he hhead hempty
  | case3 e hhead => simpa [pairOperands, hhead] using hsingle (hformula e List.mem_cons_self)
  | case4 e next rest head hhead ih =>
    simp only [List.forall_mem_cons] at hformula
    obtain ⟨he, hnext, hrest⟩ := hformula
    simp only [pairOperands, hhead, List.flatMap_cons]
    exact List.forall_mem_append.mpr ⟨happlied he hhead hnext, ih hrest⟩
  | case5 e next rest hhead ih =>
    rw [List.forall_mem_cons] at hformula
    simp only [pairOperands, hhead, List.flatMap_cons]
    exact List.forall_mem_append.mpr ⟨hsingle hformula.1, ih hformula.2⟩

/-- **A structural property holds of the element of a formula** if the texts that the formula shows
admit it. -/
theorem writeFormula (display : Display) {formula : Formula}
    (hformula : ∀ e ∈ formula, e.Shows p) : P (OfficeMath.writeFormula display formula) := by
  have hmath : P (math (OfficeMath.writeMembers display formula)) :=
    (h.slot (by decide) _).mpr (h.writeMembers display hformula)
  cases display with
  | inline => exact hmath
  | block =>
    have hcode := h.code (isCode_alignment .center)
    simpa (disch := decide) [OfficeMath.writeFormula, mathParagraph, h.slot, h.property, hcode]
      using hmath

end Markup.Structural

end OfficeMath
