import OfficeMath.Formula.Equality
import OfficeMath.Markup.Writing
import OfficeMath.Proofs.Formula.Nodes

/-!
# Movable limits are settled by the display

The display and the flag of an attachment are looked at in two places: where n-ary operators are
recognized, and where an attachment is written.  Here the two places are shown to agree on every
tree.  `Expr.settleIn` is the form in which an attachment stands in a display, with nothing left
to decide: a movable one becomes scripts in running text, and any other loses its flag.  Writing
a formula in a display is the same as settling all of its attachments and writing the result in
a block (`write_mapNodes_settleIn`).

* For running text this says that a movable attachment is written as scripts, at every depth;
* for a block it says that the flags do not matter.

Both are put together in `writeFormula_lower_and_flags`.
-/

namespace OfficeMath

namespace Expr

/-- A movable attachment as scripts on the same operands; any other expression as it is. -/
def lowerNode : Expr → Expr
  | .over true base above => .super base above
  | .under true base below => .sub base below
  | .underOver true base below above => .subSup base below above
  | e => e

/-- An expression with every movable attachment, at any depth, turned into scripts. -/
def lower (e : Expr) : Expr := e.mapNodes lowerNode

/-- An attachment that is not movable; any other expression as it is. -/
def clearFlag : Expr → Expr
  | .over _ base above => .over false base above
  | .under _ base below => .under false base below
  | .underOver _ base below above => .underOver false base below above
  | e => e

/-- An expression with the flags of all attachments cleared, at any depth. -/
def withoutFlags (e : Expr) : Expr := e.mapNodes clearFlag

/-- The form in which an attachment stands in a display, where its flag has no meaning any more. -/
def settleIn (display : Display) : Expr → Expr
  | .over movable base above =>
    if movable && display = .inline then .super base above else .over false base above
  | .under movable base below =>
    if movable && display = .inline then .sub base below else .under false base below
  | .underOver movable base below above =>
    if movable && display = .inline then .subSup base below above
    else .underOver false base below above
  | e => e

/-- In running text settling an attachment lowers a movable one. -/
theorem settleIn_inline : settleIn .inline = lowerNode := by
  funext e
  cases e with
  | «over» movable base above => cases movable <;> simp [settleIn, lowerNode]
  | under movable base below => cases movable <;> simp [settleIn, lowerNode]
  | underOver movable base below above => cases movable <;> simp [settleIn, lowerNode]
  | _ => rfl

/-- In a block settling an attachment clears its flag. -/
theorem settleIn_block : settleIn .block = clearFlag := by
  funext e
  cases e with
  | «over» | under | underOver => simp [settleIn, clearFlag]
  | _ => rfl

end Expr

/-- Two formulas that differ in nothing but the flags of attachments, at any depth. -/
def DifferOnlyInFlags (first second : Formula) : Prop :=
  first.map Expr.withoutFlags = second.map Expr.withoutFlags

section Settled

variable (display : Display)

/-- Settling makes no bare n-ary operator and destroys none. -/
theorem naryGlyph?_mapNodes_settleIn (e : Expr) :
    (e.mapNodes (.settleIn display)).naryGlyph? = e.naryGlyph? := by
  cases e with
  | «over» movable | under movable | underOver movable =>
    simp only [Expr.mapNodes, Expr.settleIn]
    split <;> rfl
  | _ => rfl

/-- Settling makes no empty group and fills none. -/
theorem isEmptyGroup_mapNodes_settleIn (e : Expr) :
    (e.mapNodes (.settleIn display)).isEmptyGroup = e.isEmptyGroup := by
  cases e with
  | «over» movable | under movable | underOver movable =>
    simp only [Expr.mapNodes, Expr.settleIn]
    split <;> rfl
  | group members => cases members <;> rfl
  | _ => rfl

/-- An n-ary operator is recognized in a display exactly where its settled form is recognized in
a block, with its limits in the same place. -/
theorem naryHead?_mapNodes_settleIn (e : Expr) :
    (e.mapNodes (.settleIn display)).naryHead? .block = e.naryHead? display := by
  cases e with
  | «over» movable base | under movable base | underOver movable base =>
    simp only [Expr.mapNodes, Expr.settleIn]
    split <;> rename_i h <;> simp [Expr.naryHead?, naryGlyph?_mapNodes_settleIn, h]
  | sub base | super base | subSup base =>
    simp [Expr.mapNodes, Expr.settleIn, Expr.naryHead?, naryGlyph?_mapNodes_settleIn]
  | _ => simp [Expr.mapNodes, Expr.settleIn, Expr.naryHead?, Expr.naryGlyph?]

/-- A limit is shown exactly if its settled form is. -/
theorem shownLimit_mapNodes_settleIn (limit : Expr) (written : List Xml.Element) :
    shownLimit (limit.mapNodes (.settleIn display)) written = shownLimit limit written := by
  simp [shownLimit, isEmptyGroup_mapNodes_settleIn]

/-- Settling turns nothing into a mark that is drawn above its base, nor a mark into something
else. -/
theorem placeAbove_mapNodes_settleIn (above : Expr) (base written : List Xml.Element) :
    Markup.placeAbove base (above.mapNodes (.settleIn display)) written
      = Markup.placeAbove base above written := by
  cases above with
  | «over» | under | underOver =>
    simp only [Expr.mapNodes, Expr.settleIn]
    split <;> rfl
  | _ => rfl

/-- The same for marks below a base. -/
theorem placeBelow_mapNodes_settleIn (below : Expr) (base written : List Xml.Element) :
    Markup.placeBelow base (below.mapNodes (.settleIn display)) written
      = Markup.placeBelow base below written := by
  cases below with
  | «over» | under | underOver =>
    simp only [Expr.mapNodes, Expr.settleIn]
    split <;> rfl
  | _ => rfl

/-- Settling keeps what is written if the settled form of every member, written in a block, is the
member written in the display. -/
private theorem writeAll_mapMembers {style : RunStyle} {members : List Expr}
    (ih : ∀ e ∈ members,
      write .block style (e.mapNodes (.settleIn display)) = write display style e) :
    writeAll .block style (mapMembers (.settleIn display) members)
      = writeAll display style members := by
  induction members with
  | nil => rfl
  | cons e rest tail =>
    rw [List.forall_mem_cons] at ih
    simp [mapMembers, writeAll, ih.1, tail ih.2]

/-- The parts of a region are written the same if its items are. -/
private theorem writeParts_mapItems {style : RunStyle} {content : List Item}
    (ih : ∀ e, Item.expr e ∈ content →
      write .block style (e.mapNodes (.settleIn display)) = write display style e) :
    writeParts .block style (mapItems (.settleIn display) content)
      = writeParts display style content := by
  induction content with
  | nil => rfl
  | cons item rest tail =>
    have others := tail fun e he => ih e (List.mem_cons_of_mem _ he)
    cases item with
    | separator glyph => simp [mapItems, writeParts, others]
    | expr e => simp [mapItems, writeParts, others, ih e List.mem_cons_self]

/-- Separators are no nodes. -/
theorem firstSeparator?_mapItems (f : Expr → Expr) (content : List Item) :
    firstSeparator? (mapItems f content) = firstSeparator? content := by
  induction content with
  | nil => rfl
  | cons item rest tail => cases item <;> simp [mapItems, firstSeparator?, tail]

/-- So are the cells of a row. -/
private theorem writeCells_mapCells {style : RunStyle} {row : List (List Expr)}
    (ih : ∀ cell ∈ row, ∀ e ∈ cell,
      write .block style (e.mapNodes (.settleIn display)) = write display style e) :
    writeCells .block style (mapCells (.settleIn display) row) = writeCells display style row := by
  induction row with
  | nil => rfl
  | cons cell rest tail =>
    rw [List.forall_mem_cons] at ih
    simp [mapCells, writeCells, writeAll_mapMembers display ih.1, tail ih.2]

/-- So are the rows of an array. -/
private theorem writeRows_mapRows {style : RunStyle} {rows : List (List (List Expr))}
    (ih : ∀ row ∈ rows, ∀ cell ∈ row, ∀ e ∈ cell,
      write .block style (e.mapNodes (.settleIn display)) = write display style e) :
    writeRows .block style (mapRows (.settleIn display) rows) = writeRows display style rows := by
  induction rows with
  | nil => rfl
  | cons row rest tail =>
    rw [List.forall_mem_cons] at ih
    simp [mapRows, writeRows, writeCells_mapCells display ih.1, tail ih.2]

/-- **Settling changes nothing that is written.**  An expression is written in a display as its
settled form is written in a block; so are the limits that it has as an n-ary operator. -/
theorem write_mapNodes_settleIn (e : Expr) (style : RunStyle) :
    write .block style (e.mapNodes (.settleIn display)) = write display style e ∧
      writeLimits .block style (e.mapNodes (.settleIn display)) = writeLimits display style e := by
  induction e generalizing style with
  | number | identifier | symbol | text | space | operatorName => exact ⟨rfl, rfl⟩
  | group members ih =>
    refine ⟨?_, rfl⟩
    match members, ih with
    | [], _ => rfl
    | [e], ih => exact (ih e (by simp) style).1
    | [first, second], ih =>
      -- the only place where two members are looked at together
      have hfirst := ih first (by simp) style
      have hsecond := ih second (by simp) style
      simp [Expr.mapNodes, Expr.settleIn, mapMembers, write, writeGroup,
        naryHead?_mapNodes_settleIn, hfirst, hsecond]
    | first :: second :: third :: rest, ih =>
      have all := writeAll_mapMembers display fun e he => (ih e he style).1
      simpa [Expr.mapNodes, Expr.settleIn, mapMembers, write, writeGroup, writeAll] using all
  | styled inner members ih =>
    refine ⟨?_, rfl⟩
    simp [Expr.mapNodes, Expr.settleIn, write,
      writeAll_mapMembers display fun e he => (ih e he (style.within inner)).1]
  | delimited opening closing content ih =>
    refine ⟨?_, rfl⟩
    simp [Expr.mapNodes, Expr.settleIn, write, firstSeparator?_mapItems,
      writeParts_mapItems display fun e he => (ih e he style).1]
  | array alignments rows ih =>
    refine ⟨?_, rfl⟩
    simp [Expr.mapNodes, Expr.settleIn, write,
      writeRows_mapRows display fun row hrow cell hcell e he =>
        (ih row hrow cell hcell e he style).1]
  | «over» movable base above ihBase ihAbove =>
    have hbase := (ihBase style).1
    have habove := (ihAbove style).1
    simp only [Expr.mapNodes, Expr.settleIn, write]
    split <;>
      simp [write, writeLimits, hbase, habove, placeAbove_mapNodes_settleIn,
        shownLimit_mapNodes_settleIn]
  | under movable base below ihBase ihBelow =>
    have hbase := (ihBase style).1
    have hbelow := (ihBelow style).1
    simp only [Expr.mapNodes, Expr.settleIn, write]
    split <;>
      simp [write, writeLimits, hbase, hbelow, placeBelow_mapNodes_settleIn,
        shownLimit_mapNodes_settleIn]
  | underOver movable base below above ihBase ihBelow ihAbove =>
    have hbase := (ihBase style).1
    have hbelow := (ihBelow style).1
    have habove := (ihAbove style).1
    simp only [Expr.mapNodes, Expr.settleIn, write]
    split <;>
      simp [write, writeLimits, hbase, hbelow, habove, placeAbove_mapNodes_settleIn,
        placeBelow_mapNodes_settleIn, shownLimit_mapNodes_settleIn]
  | sub base lower ihBase ihLower =>
    have hbase := (ihBase style).1
    have hlower := (ihLower style).1
    simp [Expr.mapNodes, Expr.settleIn, write, writeLimits, hbase, hlower,
      shownLimit_mapNodes_settleIn]
  | super base upper ihBase ihUpper =>
    have hbase := (ihBase style).1
    have hupper := (ihUpper style).1
    simp [Expr.mapNodes, Expr.settleIn, write, writeLimits, hbase, hupper,
      shownLimit_mapNodes_settleIn]
  | subSup base lower upper ihBase ihLower ihUpper =>
    have hbase := (ihBase style).1
    have hlower := (ihLower style).1
    have hupper := (ihUpper style).1
    simp [Expr.mapNodes, Expr.settleIn, write, writeLimits, hbase, hlower, hupper,
      shownLimit_mapNodes_settleIn]
  | _ => simp_all [Expr.mapNodes, Expr.settleIn, write, writeLimits]

/-- Pairing operators with operands goes the same way over the settled formula, and what the pairs
are written as stays. -/
theorem writeMembers_map_settleIn (formula : Formula) :
    writeMembers .block (formula.map (Expr.mapNodes (.settleIn display)))
      = writeMembers display formula := by
  have hwrite (e : Expr) := (write_mapNodes_settleIn display e .default).1
  have hlimits (e : Expr) := (write_mapNodes_settleIn display e .default).2
  have hempty : write .block .default .empty = write display .default .empty := rfl
  unfold writeMembers
  induction formula using pairOperands.induct display with
  | case1 => rfl
  | case2 e head hhead =>
    simp [pairOperands, naryHead?_mapNodes_settleIn, hhead, Member.write, hlimits, hempty]
  | case3 e hhead =>
    simp [pairOperands, naryHead?_mapNodes_settleIn, hhead, Member.write, hwrite]
  | case4 e next rest head hhead ih =>
    simp [pairOperands, naryHead?_mapNodes_settleIn, hhead, Member.write, hlimits, hwrite, ih]
  | case5 e next rest hhead ih =>
    rw [List.map_cons] at ih
    simp [pairOperands, naryHead?_mapNodes_settleIn, hhead, Member.write, hwrite, ih]

end Settled

/-- The members of a lowered formula are written in a block as those of the formula in running
text. -/
theorem writeMembers_map_lower (formula : Formula) :
    writeMembers .block (formula.map Expr.lower) = writeMembers .inline formula := by
  have settled := writeMembers_map_settleIn .inline formula
  rwa [Expr.settleIn_inline] at settled

/-- The flags do not matter in a block. -/
theorem writeMembers_map_withoutFlags (formula : Formula) :
    writeMembers .block (formula.map Expr.withoutFlags) = writeMembers .block formula := by
  have settled := writeMembers_map_settleIn .block formula
  rwa [Expr.settleIn_block] at settled

/-- The element of a displayed formula holds the elements of its members. -/
theorem child?_writeFormula_block (formula : Formula) :
    (writeFormula .block formula).child? "oMath"
      = some (Markup.math (writeMembers .block formula)) := by
  simp [writeFormula, Markup.mathParagraph, Markup.slot, Markup.math, Xml.Element.child?,
    Xml.Element.childElements, Xml.Element.withChildren, Xml.Element.math, Xml.Element.ofName,
    Xml.Element.node, Xml.Node.element?, Xml.Name.math]

/-- **Running text and blocks are tied by lowering limits.**  A formula in running text is the
formula element of the block whose movable attachments are lowered to scripts, at every depth;
and a block does not depend on the flags of its attachments. -/
theorem writeFormula_lower_and_flags (formula : Formula) :
    (writeFormula .block (formula.map Expr.lower)).child? "oMath"
        = some (writeFormula .inline formula) ∧
      ∀ other, DifferOnlyInFlags formula other →
        writeFormula .block formula = writeFormula .block other := by
  constructor
  · rw [child?_writeFormula_block, writeMembers_map_lower]
    rfl
  · intro other hflags
    have same : writeMembers .block formula = writeMembers .block other := by
      rw [← writeMembers_map_withoutFlags formula, hflags, writeMembers_map_withoutFlags other]
    simp [writeFormula, same]

/-- A movable sum inside a root is written in a block as the same sum with the flag cleared. -/
theorem writeFormula_block_sum_in_root :
    DifferOnlyInFlags
        [.sqrt (.group [.under true (.symbol .operator "∑") (.identifier "i"), .number "1"])]
        [.sqrt (.group [.under false (.symbol .operator "∑") (.identifier "i"), .number "1"])] ∧
      writeFormula .block
          [.sqrt (.group [.under true (.symbol .operator "∑") (.identifier "i"), .number "1"])]
        = writeFormula .block
          [.sqrt (.group [.under false (.symbol .operator "∑") (.identifier "i"), .number "1"])] :=
  ⟨rfl, (writeFormula_lower_and_flags _).2 _ rfl⟩

end OfficeMath
