import OfficeMath.Formula.Equality
import OfficeMath.Latex.Parse
import OfficeMath.Proofs.Formula.Nodes
import OfficeMath.Proofs.Latex.CommandNames
import OfficeMath.Proofs.Latex.Numeral
import OfficeMath.Proofs.Latex.Steps

/-!
# What the reader promises of its trees

Many trees are never the result of reading a formula: an array whose alignments do not fit its
rows, a number that is no numeral, a subscript on a subscript.  `Expr.Sound` says what the reader
promises of a single node, and `parse_sound_nodes` that every node of a formula that has been
read keeps the promise, at whatever depth it stands.

The promise is passed on from the nested parts to the whole: each rule of the grammar keeps it if
the nested rules do (`Nested.Sound`), and so do the rules at every depth (`Nested.sound_ofDepth`).
A base promises more than its nodes: it carries no scripts yet, and it lets its scripts move only
if it is an operator (`Base.Sound`).  This is what makes the scripts that are attached to it sound.
-/

namespace OfficeMath

namespace Expr

/-- An expression that carries scripts, or limits both below and above. -/
def IsScripted : Expr → Prop
  | .sub _ _ | .super _ _ | .subSup _ _ _ | .underOver _ _ _ _ => True
  | _ => False

/-- A base whose limits may move to the side: an operator name, or a large operator that is not an
integral. -/
def TakesMovable : Expr → Prop
  | .operatorName _ => True
  | .symbol kind glyph => kind = .operator ∧ isIntegral glyph = false
  | _ => False

end Expr

/-- The number of cells of the longest row, zero if there are no rows. -/
def IsLongest (cells : Nat) (rows : List Row) : Prop :=
  (rows = [] ∧ cells = 0) ∨
    ((∃ row ∈ rows, row.length = cells) ∧ ∀ row ∈ rows, row.length ≤ cells)

/-- Rows have one greatest length. -/
theorem IsLongest.unique {m n : Nat} {rows : List Row} (hm : IsLongest m rows)
    (hn : IsLongest n rows) : m = n := by
  rcases hm with ⟨rfl, rfl⟩ | ⟨⟨row, hrow, rfl⟩, hall⟩
  · rcases hn with ⟨-, rfl⟩ | ⟨⟨row, hrow, -⟩, -⟩
    · rfl
    · contradiction
  · rcases hn with ⟨rfl, -⟩ | ⟨⟨row', hrow', rfl⟩, hall'⟩
    · contradiction
    · exact Nat.le_antisymm (hall' row hrow) (hall row' hrow')

/-- What the reader promises of a single node. -/
def Expr.Sound : Expr → Prop
  | .number digits => Numeral digits.toList
  | .identifier letters => letters ≠ ""
  | .scaled _ inner => ∃ kind glyph, inner = .symbol kind glyph
  | .sub base _ | .super base _ | .subSup base _ _ => ¬ base.IsScripted
  | .over movable base _ | .under movable base _ => movable = true → base.TakesMovable
  | .underOver movable base _ _ => (movable = true → base.TakesMovable) ∧ ¬ base.IsScripted
  | .array alignments rows => (∀ row ∈ rows, row ≠ []) ∧ IsLongest alignments.length rows
  | _ => True

/-- An expression all of whose nodes keep the promise. -/
def Expr.AllSound (e : Expr) : Prop := ∀ node ∈ e.nodes, node.Sound

/-- A base that scripts may be attached to. -/
structure Base.Sound (b : Base) : Prop where
  nodes : b.expr.AllSound
  unscripted : ¬ b.expr.IsScripted
  movable : b.limits = .movable → b.expr.TakesMovable

/-- Scripts that are sound, as far as they have been read. -/
structure Scripts.Sound (scripts : Scripts) : Prop where
  lower : ∀ e ∈ scripts.lower, e.AllSound
  upper : ∀ e ∈ scripts.upper, e.AllSound

/-- Rows of at least one cell each, that hold sound expressions. -/
def SoundRows (rows : List Row) : Prop :=
  ∀ row ∈ rows, row ≠ [] ∧ ∀ cell ∈ row, ∀ e ∈ cell, e.AllSound

/-- The items of a delimited region hold sound expressions. -/
def SoundItems (content : List Item) : Prop := ∀ e, Item.expr e ∈ content → e.AllSound

open Reading

/-- The nested rules keep the promise. -/
structure Nested.Sound (nested : Nested) : Prop where
  base : nested.base.Returns fun found => ∀ b ∈ found, b.Sound
  limits : ∀ place, (nested.limits place).Returns fun l => l = .movable → place = .movable
  sequence : ∀ closer, (nested.sequence closer).Returns fun es => ∀ e ∈ es, e.AllSound
  region : nested.region.Returns fun found => SoundItems found.1
  rows : ∀ row cell, (∀ cell ∈ row, ∀ e ∈ cell, e.AllSound) → (∀ e ∈ cell, e.AllSound) →
    (nested.rows row cell).Returns SoundRows

section Nodes

/-- The nodes of a list are all sound if the nodes of its members are. -/
theorem sound_nodesOf {members : List Expr} (h : ∀ e ∈ members, e.AllSound) :
    ∀ node ∈ nodesOf members, node.Sound := forall_nodesOf.mpr h

/-- The nodes of the items of a region. -/
theorem sound_nodesOfItems {content : List Item} (h : SoundItems content) :
    ∀ node ∈ nodesOfItems content, node.Sound := forall_nodesOfItems.mpr h

/-- The nodes of the rows of an array. -/
theorem sound_nodesOfRows {rows : List Row} (h : SoundRows rows) :
    ∀ node ∈ nodesOfRows rows, node.Sound :=
  forall_nodesOfRows.mpr fun row hrow => (h row hrow).2

end Nodes

namespace Reading

variable {nested : Nested}

/-- An expression over one part is sound if the part is and its own node keeps the promise. -/
theorem allSound_of_part {e part : Expr} (hnodes : e.nodes = e :: part.nodes) (he : e.Sound)
    (hpart : part.AllSound) : e.AllSound := (Expr.throughout_part hnodes).mpr ⟨he, hpart⟩

/-- The same for two parts. -/
theorem allSound_of_parts {e first second : Expr}
    (hnodes : e.nodes = e :: (first.nodes ++ second.nodes)) (he : e.Sound)
    (hfirst : first.AllSound) (hsecond : second.AllSound) : e.AllSound :=
  (Expr.throughout_parts hnodes).mpr ⟨he, hfirst, hsecond⟩

/-- The same for three parts. -/
theorem allSound_of_three {e first second third : Expr}
    (hnodes : e.nodes = e :: (first.nodes ++ second.nodes ++ third.nodes)) (he : e.Sound)
    (hfirst : first.AllSound) (hsecond : second.AllSound) (hthird : third.AllSound) :
    e.AllSound := (Expr.throughout_three hnodes).mpr ⟨he, hfirst, hsecond, hthird⟩

/-- A leaf is sound if its own node keeps the promise. -/
theorem allSound_leaf {e : Expr} (hnodes : e.nodes = [e]) (he : e.Sound) : e.AllSound :=
  (Expr.throughout_leaf hnodes).mpr he

/-- Packing sound expressions gives a sound one. -/
theorem allSound_ofList {members : List Expr} (h : ∀ e ∈ members, e.AllSound) :
    (Expr.ofList members).AllSound := by
  unfold Expr.ofList
  split
  · exact h _ (List.mem_singleton_self _)
  · exact List.forall_mem_cons.mpr ⟨trivial, sound_nodesOf h⟩

/-- The empty group is sound. -/
theorem allSound_empty : Expr.empty.AllSound := by
  have hnone : ∀ e ∈ ([] : List Expr), e.AllSound := by simp
  exact allSound_ofList hnone

/-- So is every symbol. -/
theorem allSound_symbol (kind : SymbolClass) (glyph : String) :
    (Expr.symbol kind glyph).AllSound := by
  simp [Expr.AllSound, Expr.nodes, Expr.Sound]

/-- An argument is sound. -/
theorem argument_sound (hn : nested.Sound) : (argument nested).Returns Expr.AllSound := by
  refine .seq fun _ => .seq fun ahead => ?_
  split
  · exact .pure allSound_empty
  · next c after =>
    refine .ite (fun _ => .seq fun _ => ?_) fun _ =>
      .ite (fun hdigit => .seq fun _ => ?_) fun _ => ?_
    · exact .bind (hn.sequence _) fun members h => .pure (allSound_ofList h)
    · have one : DigitRun [c] := ⟨by simp, by simpa using hdigit⟩
      exact .pure (by simpa [Expr.AllSound, Expr.nodes, Expr.Sound] using Numeral.whole one)
    · refine .bind hn.base fun found h => ?_
      split
      · next b => exact .pure (h b rfl).nodes
      · exact .pure allSound_empty

/-- The scripts are movable only if the base asked for it. -/
theorem limits_sound (hn : nested.Sound) (place : Limits) :
    (limits nested place).Returns fun l => l = .movable → place = .movable := by
  refine .seq fun _ => .seq fun ahead => ?_
  split
  · exact .seq fun _ => (hn.limits .fixed).mono fun l h hl => by cases h hl
  · exact .seq fun _ => (hn.limits .side).mono fun l h hl => by cases h hl
  · exact .pure id

/-- A superscript is an argument, or primes. -/
theorem superscript_sound (hn : nested.Sound) : (superscript nested).Returns Expr.AllSound := by
  refine .seq fun _ => .seq fun count => ?_
  split
  · exact argument_sound hn
  · exact .pure (allSound_symbol _ _)

/-- The loop for scripts keeps them sound, by induction on the bound. -/
theorem scriptsFrom_sound (hn : nested.Sound) (bound : Nat) {scripts : Scripts}
    (h : scripts.Sound) : (scriptsFrom nested bound scripts).Returns Scripts.Sound := by
  induction bound generalizing scripts with
  | zero => exact .pure h
  | succ bound ih =>
    refine .seq fun _ => .seq fun ahead => ?_
    split
    · split
      · exact .pure h
      · refine .seq fun _ => .bind (argument_sound hn) fun lower hlower => ih ?_
        exact ⟨by simpa using hlower, h.upper⟩
    · split
      · refine .seq fun _ => .bind (superscript_sound hn) fun upper hupper => ih ?_
        exact ⟨h.lower, by simpa using hupper⟩
      · next primes hprimes =>
        refine .ite (fun _ => .seq fun _ => .bind (superscript_sound hn) fun upper hupper => ih ?_)
          fun _ => .pure h
        refine ⟨h.lower, ?_⟩
        have both : (Expr.group [primes, upper]).AllSound := by
          refine List.forall_mem_cons.mpr ⟨trivial, sound_nodesOf ?_⟩
          simpa using ⟨h.upper primes hprimes, hupper⟩
        simpa using both
    · exact .pure h

/-- Attaching sound scripts to a base gives a sound expression, wherever they go. -/
theorem allSound_withScripts {b : Base} (hb : b.Sound) {place : Limits} {scripts : Scripts}
    (hplace : place = .movable → b.limits = .movable) (hs : scripts.Sound) :
    (b.expr.withScripts place scripts.lower scripts.upper).AllSound := by
  obtain ⟨lower, upper, onlyPrimes⟩ := scripts
  have hmovable (h : place = .movable) : b.expr.TakesMovable := hb.movable (hplace h)
  have hlower : ∀ e ∈ lower, e.AllSound := hs.lower
  have hupper : ∀ e ∈ upper, e.AllSound := hs.upper
  cases lower with
  | none =>
    cases upper with
    | none => exact hb.nodes
    | some upper =>
      have hu := hupper upper rfl
      cases place with
      | side => exact allSound_of_parts rfl hb.unscripted hb.nodes hu
      | movable => exact allSound_of_parts rfl (fun _ => hmovable rfl) hb.nodes hu
      | fixed => exact allSound_of_parts rfl nofun hb.nodes hu
  | some lower =>
    have hl := hlower lower rfl
    cases upper with
    | none =>
      cases place with
      | side => exact allSound_of_parts rfl hb.unscripted hb.nodes hl
      | movable => exact allSound_of_parts rfl (fun _ => hmovable rfl) hb.nodes hl
      | fixed => exact allSound_of_parts rfl nofun hb.nodes hl
    | some upper =>
      have hu := hupper upper rfl
      cases place with
      | side => exact allSound_of_three rfl hb.unscripted hb.nodes hl hu
      | movable => exact allSound_of_three rfl ⟨fun _ => hmovable rfl, hb.unscripted⟩ hb.nodes hl hu
      | fixed => exact allSound_of_three rfl ⟨nofun, hb.unscripted⟩ hb.nodes hl hu

/-- A base with its scripts is sound. -/
theorem scripts_sound (hn : nested.Sound) {b : Base} (hb : b.Sound) :
    (scripts nested b).Returns Expr.AllSound := by
  refine .bind (limits_sound hn b.limits) fun place hplace => .seq fun count => ?_
  refine .bind (scriptsFrom_sound hn 3 ⟨by simp, ?_⟩) fun scripts hscripts => ?_
  · intro e he
    simp only [Option.mem_def, Option.ite_none_left_eq_some, Option.some.injEq] at he
    obtain ⟨-, rfl⟩ := he
    exact allSound_symbol _ _
  · exact .pure (allSound_withScripts hb hplace hscripts)

/-- An item is sound, if there is one. -/
theorem item_sound (hn : nested.Sound) :
    (item nested).Returns fun found => ∀ e ∈ found, e.AllSound := by
  refine .seq fun _ => .seq fun start => .bind hn.base fun found h => ?_
  split
  · next b =>
    refine .bind (scripts_sound hn (h b rfl)) fun e he => .pure ?_
    simpa using he
  · refine .seq fun now => ?_
    split
    · exact .seq fun _ => .pure (by simp)
    · exact .pure (by simp)

/-- A sequence is sound if its items are. -/
theorem sequence_sound (hn : nested.Sound) (closer : Option Closer) :
    (sequence nested closer).Returns fun es => ∀ e ∈ es, e.AllSound := by
  have hnext : (sequence.next nested closer).Returns fun es => ∀ e ∈ es, e.AllSound := by
    refine .bind (item_sound hn) fun first hfirst => .bind (hn.sequence closer) fun rest hrest => ?_
    refine .pure (List.forall_mem_append.mpr ⟨?_, hrest⟩)
    simpa using hfirst
  refine .seq fun _ => .seq fun ahead => ?_
  split
  · exact .pure (by simp)
  · exact .unclosed _
  · split
    · exact .seq fun _ => .pure (by simp)
    · exact hnext
  · exact hnext

/-- The content of a region is sound item by item. -/
theorem region_sound (hn : nested.Sound) :
    (region nested).Returns fun found => SoundItems found.1 := by
  have hmissing : region.missing.Returns fun found => SoundItems found.1 :=
    .seq fun _ => .seq fun _ => .pure (by simp [SoundItems])
  have hnext : (region.next nested).Returns fun found => SoundItems found.1 := by
    refine .bind (item_sound hn) fun first hfirst => .bind hn.region fun others hothers => .pure ?_
    intro e he
    rcases List.mem_append.mp he with he | he
    · exact hfirst e (by simpa using he)
    · exact hothers e he
  refine .seq fun _ => .seq fun ahead => ?_
  split
  · exact hmissing
  split
  · exact hmissing
  split
  · dsimp only
    split
    · exact hmissing
    split
    · exact .seq fun _ => .seq fun closing => .pure (by simp [SoundItems])
    split
    · refine .seq fun _ => .seq fun separator => .bind hn.region fun others hothers => .pure ?_
      intro e he
      exact hothers e (by simpa using he)
    · exact hnext
  · exact hnext

/-- The rows that have been read are sound if the open row and the open cell are. -/
theorem rows_sound (hn : nested.Sound) {row : Row} {cell : Cell}
    (hrow : ∀ cell ∈ row, ∀ e ∈ cell, e.AllSound) (hcell : ∀ e ∈ cell, e.AllSound) :
    (rows nested row cell).Returns SoundRows := by
  have hclosed : ∀ closed ∈ row ++ [cell], ∀ e ∈ closed, e.AllSound := by
    simpa [or_imp, forall_and] using ⟨hrow, hcell⟩
  have hlast : SoundRows (rows.last row cell) := by
    unfold rows.last
    split
    · simp [SoundRows]
    · simpa [SoundRows] using hclosed
  have hmissing : (rows.missing row cell).Returns SoundRows :=
    .seq fun _ => .seq fun _ => .pure hlast
  have hnext : (rows.next nested row cell).Returns SoundRows := by
    refine .bind (item_sound hn) fun first hfirst => hn.rows _ _ hrow ?_
    exact List.forall_mem_append.mpr ⟨hcell, by simpa using hfirst⟩
  have hothers : (do
      let others ← nested.rows [] []
      return (row ++ [cell]) :: others : Reading (List Row)).Returns SoundRows := by
    refine .bind (hn.rows [] [] (by simp) (by simp)) fun others h => .pure ?_
    exact List.forall_mem_cons.mpr ⟨⟨by simp, hclosed⟩, h⟩
  refine .seq fun _ => .seq fun ahead => ?_
  split
  · exact hmissing
  split
  · exact hmissing
  split
  · exact .seq fun _ => hn.rows _ _ hclosed (by simp)
  split
  · dsimp only
    split
    · refine .seq fun _ => .seq fun now => ?_
      split
      · exact .seq fun _ => hothers
      · exact hothers
    split
    · exact .seq fun _ => .seq fun _ => .pure hlast
    · exact hnext
  · exact hnext

/-- The most cells that a row has are those of the longest row. -/
theorem isLongest_foldl_max (rows : List Row) :
    IsLongest ((rows.map List.length).foldl max 0) rows := by
  have bounds (lengths : List Nat) (least : Nat) :
      least ≤ lengths.foldl max least ∧ (∀ n ∈ lengths, n ≤ lengths.foldl max least) ∧
        (lengths.foldl max least = least ∨ lengths.foldl max least ∈ lengths) := by
    induction lengths generalizing least with
    | nil => simp
    | cons n lengths ih =>
      obtain ⟨hleast, hall, hmem⟩ := ih (max least n)
      simp only [List.foldl_cons, List.mem_cons, forall_eq_or_imp]
      refine ⟨by omega, ⟨by omega, hall⟩, ?_⟩
      rcases hmem with hmem | hmem
      · rw [hmem]
        omega
      · exact .inr (.inr hmem)
  obtain ⟨-, hall, hmem⟩ := bounds (rows.map List.length) 0
  cases rows with
  | nil => exact .inl ⟨rfl, rfl⟩
  | cons row rest =>
    refine .inr ⟨?_, fun row hrow => hall _ (List.mem_map_of_mem hrow)⟩
    rcases hmem with hmem | hmem
    · have hfirst := hall row.length (by simp)
      exact ⟨row, by simp, by omega⟩
    · obtain ⟨longest, hlongest, heq⟩ := List.mem_map.mp hmem
      exact ⟨longest, hlongest, heq⟩

/-- An array has as many columns as its longest row has cells, and it bears no scripts itself. -/
theorem environment_sound (hn : nested.Sound) :
    (environment nested).Returns fun found => ∀ e ∈ found, e.AllSound ∧ ¬ e.IsScripted := by
  refine .seq fun name => ?_
  split
  · exact .seq fun _ => .seq fun _ => .pure (by simp)
  · split
    · exact .seq fun _ => .seq fun _ => .pure (by simp)
    · next environment _ =>
      refine .iteBind fun specification => ?_
      refine .bind (hn.rows [] [] (by simp) (by simp)) fun rows hrows => ?_
      -- the array has the alignments that the environment gives to its longest row
      have harray : (Expr.array (environment.alignments specification
          ((rows.map List.length).foldl max 0)) rows).AllSound := by
        refine List.forall_mem_cons.mpr ⟨⟨fun row hrow => (hrows row hrow).1, ?_⟩, ?_⟩
        · rw [Environment.length_alignments]
          exact isLongest_foldl_max rows
        · exact sound_nodesOfRows hrows
      dsimp only
      split
      · refine .pure fun e he => ?_
        cases he
        refine ⟨List.forall_mem_cons.mpr ⟨trivial, sound_nodesOfItems ?_⟩, id⟩
        simpa [SoundItems] using harray
      · refine .pure fun e he => ?_
        cases he
        exact ⟨harray, id⟩

/-- An identifier in the table of commands has a name. -/
theorem identifier_ne_empty {name text : String} (h : command? name = some (.identifier text)) :
    text ≠ "" := by
  have table : ∀ entry ∈ commands, entry.2 ≠ .identifier "" := by decide +kernel
  intro hempty
  subst hempty
  exact table _ (mem_commands h) rfl

/-- A base without scripts that keeps them to the side. -/
theorem sound_side {e : Expr} (h : e.AllSound) (hunscripted : ¬ e.IsScripted) :
    (Base.side e).Sound := ⟨h, hunscripted, by simp [Base.side]⟩

/-- Finding a sound base. -/
theorem found_sound {b : Base} (h : b.Sound) :
    (pure (some b) : Reading (Option Base)).Returns fun found => ∀ b ∈ found, b.Sound := by
  refine .pure fun other hother => ?_
  obtain rfl : b = other := by simpa using hother
  exact h

/-- A delimited region is sound with its content. -/
theorem delimited_sound (hn : nested.Sound) :
    (delimited nested).Returns fun e => e.AllSound ∧ ¬ e.IsScripted := by
  refine .seq fun opening => .bind hn.region fun (content, closing) hcontent => .pure ⟨?_, id⟩
  exact List.forall_mem_cons.mpr ⟨trivial, sound_nodesOfItems hcontent⟩

/-- A construction over one argument. -/
theorem overArgument_sound (hn : nested.Sound) {f : Expr → Expr}
    (hf : ∀ e, e.AllSound → (Base.side (f e)).Sound) :
    (do return some (.side (f (← argument nested))) : Reading (Option Base)).Returns
      fun found => ∀ b ∈ found, b.Sound := by
  exact .bind (argument_sound hn) fun e he => found_sound (hf e he)

/-- A construction over two arguments. -/
theorem overArguments_sound (hn : nested.Sound) {f : Expr → Expr → Expr}
    (hf : ∀ e, e.AllSound → ∀ e', e'.AllSound → (Base.side (f e e')).Sound) :
    (do
      let first ← argument nested
      let second ← argument nested
      return some (.side (f first second)) : Reading (Option Base)).Returns
      fun found => ∀ b ∈ found, b.Sound := by
  refine .bind (argument_sound hn) fun e he => .bind (argument_sound hn) fun e' he' => ?_
  exact found_sound (hf e he e' he')

/-- A command gives a sound base, if it gives one. -/
theorem command_sound (hn : nested.Sound) (start : Nat) {c : Command}
    (hc : ∀ text, c = .identifier text → text ≠ "") :
    (command nested start c).Returns fun found => ∀ b ∈ found, b.Sound := by
  cases c with
  | symbol kind glyph =>
    refine found_sound ⟨allSound_symbol kind glyph, id, fun h => ?_⟩
    simpa [SymbolClass.limits, Expr.TakesMovable] using h
  | identifier text =>
    exact found_sound (sound_side (allSound_leaf rfl (hc text rfl)) id)
  | operatorName name limits =>
    exact found_sound ⟨allSound_leaf rfl trivial, id, fun _ => trivial⟩
  | space width =>
    exact found_sound (sound_side (allSound_leaf rfl trivial) id)
  | sized factor =>
    refine .seq fun found => ?_
    split
    · next glyph =>
      exact found_sound (sound_side (allSound_of_part rfl ⟨_, _, rfl⟩ (allSound_symbol _ _)) id)
    · exact .seq fun _ => .pure (by simp)
  | decoration kind mark side =>
    refine .bind (argument_sound hn) fun base hbase => found_sound ?_
    constructor
    · cases side
      · exact allSound_of_parts rfl nofun hbase (allSound_symbol _ _)
      · exact allSound_of_parts rfl nofun hbase (allSound_symbol _ _)
    · cases side <;> exact id
    · dsimp only
      split <;> simp
  | fraction style =>
    exact overArguments_sound hn fun numerator hnum denominator hden =>
      sound_side (allSound_of_parts rfl trivial hnum hden) id
  | sqrt =>
    refine .seq fun _ => .seq fun ahead => ?_
    split
    · refine .seq fun _ => .bind (hn.sequence _) fun index hindex =>
        .bind (argument_sound hn) fun base hbase => found_sound ?_
      exact sound_side (allSound_of_parts rfl trivial (allSound_ofList hindex) hbase) id
    · exact overArgument_sound hn fun e he => sound_side (allSound_of_part rfl trivial he) id
  | left =>
    exact .bind (delimited_sound hn) fun e he => found_sound (sound_side he.1 he.2)
  | beginEnvironment =>
    refine .bind (environment_sound hn) fun found h => .pure ?_
    simp only [Option.mem_def, Option.map_eq_some_iff, forall_exists_index, and_imp]
    intro b e he hb
    rw [← hb]
    exact sound_side (h e he).1 (h e he).2
  | overset =>
    exact overArguments_sound hn fun above habove base hbase =>
      sound_side (allSound_of_parts rfl nofun hbase habove) id
  | underset =>
    exact overArguments_sound hn fun below hbelow base hbase =>
      sound_side (allSound_of_parts rfl nofun hbase hbelow) id
  | boxed | phantom | cancel =>
    exact overArgument_sound hn fun e he => sound_side (allSound_of_part rfl trivial he) id
  | namedOperator limits =>
    exact .seq fun name => found_sound ⟨allSound_leaf rfl trivial, id, fun _ => trivial⟩
  | limits | ignored | right | middle | endEnvironment => exact .pure (by simp)

/-- A style command makes a sound node of its argument. -/
theorem styled_sound (hn : nested.Sound) (style : StyleCommand) :
    (styled nested style).Returns fun e => e.AllSound ∧ ¬ e.IsScripted := by
  have hmembers {style : TextStyle} {members : List Expr} (h : ∀ e ∈ members, e.AllSound) :
      (Expr.styled style members).AllSound :=
    List.forall_mem_cons.mpr ⟨trivial, sound_nodesOf h⟩
  cases style with
  | text style => exact .seq fun text => .pure ⟨allSound_leaf rfl trivial, id⟩
  | formula style =>
    refine .seq fun _ => .seq fun ahead => ?_
    split
    · exact .seq fun _ => .bind (hn.sequence _) fun members h => .pure ⟨hmembers h, id⟩
    · refine .bind hn.base fun found h => .pure ⟨hmembers ?_, id⟩
      intro e he
      obtain ⟨b, hb, rfl⟩ : ∃ b, found = some b ∧ b.expr = e := by simpa using he
      exact (h b hb).nodes

/-- The base that a command begins is sound, whatever the tables say of its name. -/
theorem commandBase_sound (hn : nested.Sound) (after : List Char) :
    (commandBase nested after).Returns fun found => ∀ b ∈ found, b.Sound := by
  unfold commandBase
  dsimp only
  split
  · exact .pure (by simp)
  rename_i meaning hmeaning
  split
  · next c =>
    split
    · exact .pure (by simp)
    · refine .seq fun start => .seq fun _ => command_sound hn start fun text hc => ?_
      exact identifier_ne_empty (hc ▸ command?_of_ofName? hmeaning)
  · exact .seq fun _ => found_sound (sound_side (allSound_symbol _ _) id)
  · refine .seq fun _ => .bind (styled_sound hn _) fun e he => ?_
    exact found_sound (sound_side he.1 he.2)

/-- What a character stands for on its own is sound and carries no scripts. -/
theorem ofChar?_sound {c : Char} {e : Expr} (h : Expr.ofChar? c = some e) :
    e.AllSound ∧ ¬ e.IsScripted := by
  unfold Expr.ofChar? at h
  split at h
  · cases h
    refine ⟨allSound_leaf rfl ?_, id⟩
    simp [Expr.Sound]
  · split at h
    · cases h
      exact ⟨allSound_symbol _ _, id⟩
    · split at h
      · cases h
      · cases h
        exact ⟨allSound_symbol _ _, id⟩

/-- A base is sound, whichever of its forms it has. -/
theorem base_sound (hn : nested.Sound) :
    (base nested).Returns fun found => ∀ b ∈ found, b.Sound := by
  refine .seq fun _ => .seq fun ahead => ?_
  split
  · exact .pure (by simp)
  rename_i c after
  split
  · refine .seq fun _ => .bind (hn.sequence _) fun members h => found_sound ?_
    exact sound_side (List.forall_mem_cons.mpr ⟨trivial, sound_nodesOf h⟩) id
  split
  · next hnumber =>
    refine .seq fun _ => found_sound (sound_side (allSound_leaf rfl ?_) id)
    simpa [Expr.Sound] using numeral_take_numberLength hnumber
  split
  · exact commandBase_sound hn after
  split
  · exact found_sound (sound_side allSound_empty id)
  split
  · exact .seq fun count => found_sound (sound_side (allSound_symbol _ _) id)
  split
  · exact .seq fun _ => found_sound (sound_side (allSound_leaf rfl trivial) id)
  split
  · exact .pure (by simp)
  · next e he =>
    have hsound := ofChar?_sound he
    exact .seq fun _ => found_sound (sound_side hsound.1 hsound.2)

end Reading

/-- The rules keep the promise at every depth. -/
theorem Nested.sound_ofDepth (depth : Nat) : (Nested.ofDepth depth).Sound := by
  induction depth with
  | zero =>
    exact {
      base := .pure (by simp)
      limits := fun place => .pure id
      sequence := fun closer => .pure (by simp)
      region := .pure (by simp [SoundItems])
      rows := fun row cell _ _ => .pure (by simp [SoundRows]) }
  | succ depth ih =>
    exact {
      base := base_sound ih
      limits := limits_sound ih
      sequence := sequence_sound ih
      region := region_sound ih
      rows := fun row cell hrow hcell => rows_sound ih hrow hcell }

/-- Settling the binary operators changes no node but symbols into symbols. -/
theorem allSound_settleFrom {formula : Formula} (h : ∀ e ∈ formula, e.AllSound)
    (previous : Option Expr) : ∀ e ∈ settleFrom previous formula, e.AllSound := by
  induction formula generalizing previous with
  | nil => simp [settleFrom]
  | cons e rest ih =>
    rw [List.forall_mem_cons] at h
    refine List.forall_mem_cons.mpr ⟨?_, ih h.2 _⟩
    unfold Expr.settle
    split
    · cases e with
      | symbol kind glyph => exact allSound_symbol .ordinary glyph
      | _ => exact h.1
    · exact h.1

/-- **Every node of a formula that has been read is sound**, at whatever depth it stands. -/
theorem parse_sound_nodes {text : String} {formula : Formula} (h : parse text = .ok formula) :
    ∀ node ∈ nodesOf formula, node.Sound := by
  have hread : (alone (·.sequence none)).Returns fun es => ∀ e ∈ es, e.AllSound :=
    .seq fun ahead => (Nested.sound_ofDepth _).sequence none
  simp only [parse, read] at h
  split at h
  · next es finish hrun =>
    cases h
    exact sound_nodesOf (allSound_settleFrom (hread _ _ _ hrun) none)
  · cases h

/-- An array with too few alignments, a decimal number and movable limits. -/
theorem parse_sound_nodes_array :
    parse "\\begin\x7barray\x7d\x7bl\x7d1.5&a\\\\\\lim_x\\end\x7barray\x7d"
        = .ok [.array [.left, .center] [[[.number "1.5"], [.identifier "a"]],
            [[.under true (.operatorName "lim") (.identifier "x")]]]] ∧
      ∀ node ∈ nodesOf [.array [.left, .center] [[[.number "1.5"], [.identifier "a"]],
          [[.under true (.operatorName "lim") (.identifier "x")]]]], node.Sound := by
  have hread : parse "\\begin\x7barray\x7d\x7bl\x7d1.5&a\\\\\\lim_x\\end\x7barray\x7d"
      = .ok [.array [.left, .center] [[[.number "1.5"], [.identifier "a"]],
          [[.under true (.operatorName "lim") (.identifier "x")]]]] :=
    eq_ok_of_toOption (by decide +kernel)
  exact ⟨hread, parse_sound_nodes hread⟩

end OfficeMath
