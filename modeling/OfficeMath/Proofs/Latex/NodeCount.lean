import OfficeMath.Formula.Equality
import OfficeMath.Proofs.Formula.Nodes
import OfficeMath.Proofs.Latex.Items

/-!
# How large a formula can get

A few nodes of an expression are made out of nothing: where a script has no base, the base is an
empty group, and so is an argument that is missing.  Nevertheless a formula never has more than
three nodes for each byte of its text (`nodeCount_le_three_mul_size`), and this is what a row of
carets has (`nodeCount_replicate_caret`).

The proof keeps a budget of three nodes for each byte ahead (`Scan.budget`).  A rule of the grammar
pays for the nodes that it makes out of the bytes that it takes, with two exceptions.  An argument
may cost one node more, the empty group in its place; whoever asks for it has taken a byte before
and has two nodes left of it at least.  And the empty base of a script costs a node that nothing has
been taken for; but then the script is still ahead (`Scan.Affords`), and its mark pays for all
three: the base, an argument that is missing, and the node that holds both.
-/

namespace OfficeMath

/-! ## Counting nodes -/

/-- The number of nodes of an expression, at every depth. -/
def Expr.nodeCount (e : Expr) : Nat := e.nodes.length

/-- The number of nodes of several expressions. -/
def nodeCountOf (members : List Expr) : Nat := (nodesOf members).length

@[simp] theorem nodeCountOf_nil : nodeCountOf [] = 0 := rfl

@[simp] theorem nodeCountOf_cons (e : Expr) (rest : List Expr) :
    nodeCountOf (e :: rest) = e.nodeCount + nodeCountOf rest := by
  simp [nodeCountOf, Expr.nodeCount, nodesOf]

@[simp] theorem nodeCountOf_append (front back : List Expr) :
    nodeCountOf (front ++ back) = nodeCountOf front + nodeCountOf back := by
  induction front with
  | nil => simp
  | cons e front ih => simp [ih, Nat.add_assoc]

/-- The nodes of the cells of a row are those of the cells before the last one and those of it. -/
theorem length_nodesOfCells_append (row : Row) (cell : Cell) :
    (nodesOfCells (row ++ [cell])).length = (nodesOfCells row).length + nodeCountOf cell := by
  induction row with
  | nil => simp [nodesOfCells, nodeCountOf]
  | cons first row ih =>
    simp only [List.cons_append, nodesOfCells, List.length_append, ih]
    omega

namespace Expr

/-- A node over one part. -/
theorem nodeCount_part {e part : Expr} (h : e.nodes = e :: part.nodes) :
    e.nodeCount = part.nodeCount + 1 := by
  rw [nodeCount, h, List.length_cons, nodeCount]

/-- A node over two parts. -/
theorem nodeCount_parts {e first second : Expr}
    (h : e.nodes = e :: (first.nodes ++ second.nodes)) :
    e.nodeCount = first.nodeCount + second.nodeCount + 1 := by
  rw [nodeCount, h, List.length_cons, List.length_append, nodeCount, nodeCount]

/-- A node over a list. -/
theorem nodeCount_members {e : Expr} {members : List Expr} (h : e.nodes = e :: nodesOf members) :
    e.nodeCount = nodeCountOf members + 1 := by
  rw [nodeCount, h, List.length_cons, nodeCountOf]

@[simp] theorem nodeCount_empty : empty.nodeCount = 1 := rfl

@[simp] theorem nodeCount_primes (count : Nat) : (primes count).nodeCount = 1 := rfl

/-- Packing a list takes one more node at most. -/
theorem nodeCount_ofList_le (members : List Expr) :
    (ofList members).nodeCount ≤ nodeCountOf members + 1 := by
  unfold ofList
  split
  · simp
  · exact Nat.le_of_eq (nodeCount_members rfl)

/-- What a character stands for on its own is a single node. -/
theorem nodeCount_ofChar? {c : Char} {e : Expr} (h : ofChar? c = some e) : e.nodeCount = 1 := by
  unfold ofChar? at h
  split at h
  · cases h
    rfl
  · split at h
    · cases h
      rfl
    · split at h
      · cases h
      · cases h
        rfl

/-- Settling an operator changes no more than the class of a symbol. -/
theorem nodeCount_settle (previous next : Option Expr) (e : Expr) :
    (e.settle previous next).nodeCount = e.nodeCount := by
  unfold settle
  split
  · cases e <;> rfl
  · rfl

end Expr

/-- Settling the operators of a formula keeps the number of its nodes. -/
theorem nodeCountOf_settleFrom (previous : Option Expr) (formula : Formula) :
    nodeCountOf (settleFrom previous formula) = nodeCountOf formula := by
  induction formula generalizing previous with
  | nil => rfl
  | cons e rest ih => simp [settleFrom, Expr.nodeCount_settle, ih]

/-! ## Scripts -/

/-- The nodes that scripts add to their base: their own, and one that holds them together. -/
def Scripts.cost (scripts : Scripts) : Nat :=
  nodeCountOf scripts.lower.toList + nodeCountOf scripts.upper.toList
    + if scripts.lower.isSome || scripts.upper.isSome then 1 else 0

/-- A base with scripts costs what the base and the scripts do. -/
theorem Expr.nodeCount_withScripts (place : Limits) (base : Expr) (scripts : Scripts) :
    (base.withScripts place scripts.lower scripts.upper).nodeCount
      = base.nodeCount + scripts.cost := by
  obtain ⟨lower, upper, onlyPrimes⟩ := scripts
  cases lower with
  | none =>
    cases upper with
    | none => simp [Scripts.cost]
    | some upper =>
      cases place <;> simp [Scripts.cost, withScripts, nodeCount, nodes, Nat.add_assoc]
  | some lower =>
    cases upper with
    | none => cases place <;> simp [Scripts.cost, withScripts, nodeCount, nodes, Nat.add_assoc]
    | some upper =>
      cases place <;> simp [Scripts.cost, withScripts, nodeCount, nodes, Nat.add_assoc]

/-! ## The budget -/

namespace Scan

/-- What the characters ahead can pay for: three nodes for every byte. -/
def budget (s : Scan) : Nat := 3 * utf8Length s.rest

/-- Reading on, nothing is added to the budget. -/
theorem Leads.budget_le {s t : Scan} (h : s.Leads t) : t.budget ≤ s.budget := by
  obtain ⟨taken, hrest⟩ := h.rest_suffix
  have hlength := utf8Length_append taken t.rest
  rw [hrest] at hlength
  simp only [budget]
  omega

/-- A character that is taken pays for three nodes. -/
theorem budget_advance {s : Scan} {count : Nat} (hrest : s.rest ≠ []) (hcount : 0 < count) :
    (s.advance count).budget + 3 ≤ s.budget := by
  obtain ⟨c, after, hahead⟩ := List.exists_cons_of_ne_nil hrest
  have hone : (s.advance 1).budget + 3 ≤ s.budget := by
    have hbyte := c.utf8Size_pos
    simp only [budget, rest_advance_one hahead, hahead, utf8Length]
    omega
  have hmore := (Leads.advance (s.advance 1) (count - 1)).budget_le
  rw [advance_add, Nat.add_sub_cancel' hcount] at hmore
  omega

/-- What has been taken pays for a base, unless it is the empty base of a script ahead. -/
def Affords (s t : Scan) (b : Base) : Prop :=
  b.expr.nodeCount + t.budget ≤ s.budget ∨
    (b.expr.nodeCount = 1 ∧ t.ScriptAhead ∧ t.budget ≤ s.budget)

end Scan

/-! ## What a step costs -/

namespace Reading

/-- Where a step succeeds, what it makes and what is left of the budget come out of these funds. -/
def Costs {α : Type} (funds : Nat) (s : Scan) (m : Reading α) (count : α → Nat) : Prop :=
  ∀ a t, m s = .ok a t → count a + t.budget ≤ funds

namespace Costs

variable {α β : Type} {funds : Nat} {s t : Scan} {m : Reading α} {f : α → Reading β}
  {count : α → Nat} {count' : β → Nat} {a : α}

/-- What has been paid where a step succeeds. -/
theorem paid (h : Costs funds s m count) (hrun : m s = .ok a t) : count a + t.budget ≤ funds :=
  h a t hrun

theorem pure (h : count a + s.budget ≤ funds) :
    Costs funds s (Pure.pure a : Reading α) count := by
  intro b t hrun
  cases hrun
  exact h

theorem unclosed (closer : Closer) :
    Costs funds s (Reading.unclosed closer : Reading α) count := by
  intro b t hrun
  cases hrun

/-- Two steps in a row, the second of which may use how the first one ended. -/
theorem bind (second : ∀ a t, m s = .ok a t → Costs funds t (f a) count') :
    Costs funds s (m >>= f) count' := by
  intro b u hrun
  obtain ⟨a, t, ha, hb⟩ := bind_eq_ok.mp hrun
  exact second a t ha b u hb

/-- A first step of which it only matters that it adds nothing to the budget. -/
theorem seq (hm : m.Forward) (second : ∀ a t, t.budget ≤ s.budget → Costs funds t (f a) count') :
    Costs funds s (m >>= f) count' :=
  bind fun a t hrun => second a t (hm.leads hrun).budget_le

/-- Looking ahead. -/
theorem rest {f : List Char → Reading β} (h : Costs funds s (f s.rest) count') :
    Costs funds s (Reading.rest >>= f) count' := h

/-- Looking at the offset. -/
theorem offset {f : Nat → Reading β} (h : Costs funds s (f s.offset) count') :
    Costs funds s (Reading.offset >>= f) count' := h

/-- Taking characters. -/
theorem take {f : Unit → Reading β} {taken : Nat}
    (h : Costs funds (s.advance taken) (f ()) count') :
    Costs funds s (Reading.advance taken >>= f) count' := h

/-- A choice between two steps. -/
theorem ite {c : Prop} [Decidable c] {m' : Reading α} (yes : c → Costs funds s m count)
    (no : ¬ c → Costs funds s m' count) : Costs funds s (if c then m else m') count := by
  by_cases h : c
  · rw [if_pos h]
    exact yes h
  · rw [if_neg h]
    exact no h

/-- A smaller count out of larger funds. -/
theorem mono {funds' : Nat} {count' : α → Nat} (h : Costs funds s m count)
    (hcount : ∀ a, count' a + funds ≤ count a + funds') : Costs funds' s m count' := by
  intro a t hrun
  have hpaid := h.paid hrun
  have hmore := hcount a
  omega

end Costs

/-- The nodes of a base, if there is one. -/
def costOfBase (found : Option Base) : Nat := nodeCountOf (found.map Base.expr).toList

@[simp] theorem costOfBase_none : costOfBase none = 0 := rfl

@[simp] theorem costOfBase_some (b : Base) : costOfBase (some b) = b.expr.nodeCount := by
  simp [costOfBase]

namespace Costs

variable {funds : Nat} {s : Scan}

/-- No base. -/
theorem noBase (h : s.budget ≤ funds) : Costs funds s (Pure.pure none) costOfBase :=
  .pure (by rwa [costOfBase_none, Nat.zero_add])

/-- A base that keeps its scripts to the side. -/
theorem side {e : Expr} (h : e.nodeCount + s.budget ≤ funds) :
    Costs funds s (Pure.pure (some (Base.side e))) costOfBase :=
  .pure (by rwa [costOfBase_some])

end Costs

end Reading

open Reading

/-- Nested parts pay for themselves. -/
structure Nested.Thrifty (nested : Nested) : Prop where
  base : ∀ {s t b}, nested.base s = .ok (some b) t → s.Affords t b
  sequence : ∀ closer s, Costs s.budget s (nested.sequence closer) nodeCountOf
  region : ∀ s, Costs s.budget s nested.region fun found => (nodesOfItems found.1).length
  rows : ∀ row cell s, Costs (s.budget + (nodesOfCells row).length + nodeCountOf cell) s
    (nested.rows row cell) fun rows => (nodesOfRows rows).length
  forward : nested.Forward

namespace Reading

variable {nested : Nested} {s : Scan}

/-! ## Arguments and scripts -/

/-- A base costs at most one node more than has been paid for, the empty base of a script. -/
theorem costs_nestedBase (hn : nested.Thrifty) (s : Scan) :
    Costs (s.budget + 1) s nested.base costOfBase := by
  intro found t hrun
  have hlater := (hn.forward.base.leads hrun).budget_le
  cases found with
  | none =>
    rw [costOfBase_none]
    omega
  | some b =>
    rw [costOfBase_some]
    rcases hn.base hrun with hpaid | ⟨hempty, -, -⟩
    · omega
    · omega

/-- So does an argument, for the empty group in its place. -/
theorem costs_argument (hn : nested.Thrifty) (s : Scan) :
    Costs (s.budget + 1) s (argument nested) Expr.nodeCount := by
  refine .seq forward_skipLayout fun _ t ht => .rest ?_
  cases hrest : t.rest with
  | nil =>
    apply Costs.pure
    rw [Expr.nodeCount_empty]
    omega
  | cons c after =>
    have hbyte : (t.advance 1).budget + 3 ≤ t.budget :=
      Scan.budget_advance (by simp [hrest]) Nat.one_pos
    dsimp only
    split
    · refine .take (.bind fun members u hrun => ?_)
      have hmembers := (hn.sequence _ _).paid hrun
      have hpacked := Expr.nodeCount_ofList_le members
      apply Costs.pure
      omega
    split
    · have hone : (Expr.number (String.ofList [c])).nodeCount = 1 := rfl
      refine .take ?_
      apply Costs.pure
      omega
    · refine .bind fun found u hrun => ?_
      have hbase := (costs_nestedBase hn t).paid hrun
      cases found with
      | none =>
        have hlater := (hn.forward.base.leads hrun).budget_le
        apply Costs.pure
        rw [Expr.nodeCount_empty]
        omega
      | some b =>
        rw [costOfBase_some] at hbase
        apply Costs.pure
        omega

/-- A superscript costs what an argument costs, or a node for its apostrophes. -/
theorem costs_superscript (hn : nested.Thrifty) (s : Scan) :
    Costs (s.budget + 1) s (superscript nested) Expr.nodeCount := by
  refine .seq forward_skipLayout fun _ t ht => .seq forward_primes fun count u hu => ?_
  cases count with
  | zero => exact (costs_argument hn u).mono fun e => by omega
  | succ count =>
    apply Costs.pure
    rw [Expr.nodeCount_primes]
    omega

/-- A script and the scripts after it.  The mark pays for an argument that is missing and for a node
that holds the scripts together, and a node is left over. -/
theorem costs_script {script : Reading Expr} {next : Expr → Scripts} {bound : Nat} (cost : Nat)
    (hrest : s.rest ≠ []) (hscript : ∀ t, Costs (t.budget + 1) t script Expr.nodeCount)
    (hnext : ∀ e, (next e).cost ≤ cost + e.nodeCount + 1)
    (hmore : ∀ t scripts,
      Costs (t.budget + scripts.cost) t (scriptsFrom nested bound scripts) Scripts.cost) :
    Costs (s.budget + cost) s
      (advance 1 >>= fun _ => script >>= fun e => scriptsFrom nested bound (next e))
      fun found => found.cost + 1 := by
  have hmark : (s.advance 1).budget + 3 ≤ s.budget := Scan.budget_advance hrest Nat.one_pos
  refine .take (.bind fun e t he => ?_)
  have hargument := (hscript _).paid he
  have hcost := hnext e
  exact (hmore t (next e)).mono fun found => by omega

/-- Each script is paid for by its mark, by induction on the bound. -/
theorem costs_scriptsFrom (hn : nested.Thrifty) (bound : Nat) (s : Scan) (scripts : Scripts) :
    Costs (s.budget + scripts.cost) s (scriptsFrom nested bound scripts) Scripts.cost := by
  induction bound generalizing s scripts with
  | zero =>
    apply Costs.pure
    omega
  | succ bound ih =>
    refine .seq forward_skipLayout fun _ t ht => .rest ?_
    have hstop : Costs (s.budget + scripts.cost) t (Pure.pure scripts) Scripts.cost := by
      apply Costs.pure
      omega
    -- the node that a round leaves over is given away
    have hround {m : Reading Scripts}
        (h : Costs (t.budget + scripts.cost) t m fun found => found.cost + 1) :
        Costs (s.budget + scripts.cost) t m Scripts.cost := h.mono fun found => by omega
    cases hrest : t.rest with
    | nil => exact hstop
    | cons c after =>
      have hne : t.rest ≠ [] := by simp [hrest]
      simp only [List.head?_cons]
      split
      · cases hlower : scripts.lower with
        | some lower => exact hstop
        | none =>
          refine hround (costs_script _ hne (costs_argument hn) (fun e => ?_) ih)
          simp only [Scripts.cost, hlower, Option.toList_none, Option.toList_some,
            nodeCountOf_nil, nodeCountOf_cons, Option.isSome_some, Bool.true_or, if_true]
          omega
      · cases hupper : scripts.upper with
        | none =>
          refine hround (costs_script _ hne (costs_superscript hn) (fun e => ?_) ih)
          simp only [Scripts.cost, hupper, Option.toList_none, Option.toList_some,
            nodeCountOf_nil, nodeCountOf_cons, Option.isSome_some, Bool.or_true, if_true]
          omega
        | some primes =>
          refine .ite (fun _ => ?_) fun _ => hstop
          refine hround (costs_script _ hne (costs_superscript hn) (fun e => ?_) ih)
          have hjoined := Expr.nodeCount_members (e := .group [primes, e]) rfl
          simp only [Scripts.cost, hupper, hjoined, Option.toList_some, nodeCountOf_nil,
            nodeCountOf_cons, Option.isSome_some, Bool.or_true, if_true]
          omega
      · exact hstop

/-- Where a script is ahead and none has been read, a node is left over. -/
theorem costs_scriptsFrom_ahead (hn : nested.Thrifty) (h : s.ScriptAhead) (bound : Nat) :
    Costs s.budget s (scriptsFrom nested (bound + 1) ⟨none, none, false⟩)
      fun found => found.cost + 1 := by
  obtain ⟨hskip, -, -⟩ := run_of_scriptAhead nested h
  have hne : s.rest ≠ [] := by
    intro hnone
    simp [Scan.ScriptAhead, hnone] at h
  refine .bind fun _ t hrun => ?_
  rw [hskip] at hrun
  cases hrun
  refine .rest ?_
  rcases h with hupper | hlower
  · rw [hupper]
    refine costs_script 0 hne (costs_superscript hn) (fun e => ?_)
      (costs_scriptsFrom hn bound)
    simp [Scripts.cost]
  · rw [hlower]
    refine costs_script 0 hne (costs_argument hn) (fun e => ?_)
      (costs_scriptsFrom hn bound)
    simp [Scripts.cost]

/-- The primes that begin the scripts are paid for by their apostrophes. -/
theorem cost_primes_le (s : Scan) (upper : Option Expr)
    (hupper : upper = if primeCount s.rest = 0 then none else some (.primes (primeCount s.rest))) :
    (s.advance (primeCount s.rest)).budget + Scripts.cost ⟨none, upper, upper.isSome⟩
      ≤ s.budget := by
  by_cases hcount : primeCount s.rest = 0
  · simp [Scripts.cost, hupper, hcount]
  · have hne : s.rest ≠ [] := by
      intro hnone
      simp [hnone, primeCount] at hcount
    have htaken := Scan.budget_advance hne (Nat.pos_of_ne_zero hcount)
    simp only [Scripts.cost, hupper, hcount, if_false, Option.toList_none, Option.toList_some,
      nodeCountOf_nil, nodeCountOf_cons, Expr.nodeCount_primes, Option.isSome_some,
      Bool.or_true, if_true]
    omega

/-- A base with its scripts costs no more than the base and what has been taken for the scripts. -/
theorem costs_scripts (hn : nested.Thrifty) (s : Scan) (b : Base) :
    Costs (s.budget + b.expr.nodeCount) s (scripts nested b) Expr.nodeCount := by
  refine .seq (forward_limits hn.forward _) fun place t ht => ?_
  refine .bind fun count u hprimes => .bind fun found v hfound => ?_
  rw [run_primes] at hprimes
  cases hprimes
  have hscripts := (costs_scriptsFrom hn _ _ _).paid hfound
  have hpaid := cost_primes_le t _ rfl
  apply Costs.pure
  rw [Expr.nodeCount_withScripts]
  omega

/-- Where a script is ahead of an empty base, the script pays for the base too. -/
theorem costs_scripts_ahead (hn : nested.Thrifty) (h : s.ScriptAhead) (b : Base) :
    Costs (s.budget + b.expr.nodeCount) s (scripts nested b) fun e => e.nodeCount + 1 := by
  obtain ⟨-, hprimes, hlimits⟩ := run_of_scriptAhead nested h
  refine .bind fun place t hplace => .bind fun count u hcount => .bind fun found v hfound => ?_
  rw [hlimits] at hplace
  cases hplace
  rw [hprimes] at hcount
  cases hcount
  have hpaid := (costs_scriptsFrom_ahead hn h 2).paid hfound
  apply Costs.pure
  rw [Expr.nodeCount_withScripts]
  omega

/-! ## Items and what is made of them -/

/-- An item costs no more than the characters that it takes have paid. -/
theorem costs_item (hn : nested.Thrifty) (s : Scan) :
    Costs s.budget s (item nested) fun found => nodeCountOf found.toList := by
  refine .seq forward_skipLayout fun _ t ht => .offset (.bind fun found u hbase => ?_)
  cases found with
  | some b =>
    refine .bind fun e v hscripts => ?_
    apply Costs.pure
    rw [Option.toList_some, nodeCountOf_cons, nodeCountOf_nil]
    rcases hn.base hbase with hpaid | ⟨hempty, hahead, hlater⟩
    · have hall := (costs_scripts hn u b).paid hscripts
      omega
    · have hspare := (costs_scripts_ahead hn hahead b).paid hscripts
      omega
  | none =>
    have hlater := (hn.forward.base.leads hbase).budget_le
    refine .offset ?_
    split
    · refine .seq forward_skipToken fun _ v hv => ?_
      apply Costs.pure
      rw [Option.toList_none, nodeCountOf_nil]
      omega
    · apply Costs.pure
      rw [Option.toList_none, nodeCountOf_nil]
      omega

/-- So does a sequence. -/
theorem costs_sequence (hn : nested.Thrifty) (closer : Option Closer) (s : Scan) :
    Costs s.budget s (sequence nested closer) nodeCountOf := by
  have hnext (t : Scan) (ht : t.budget ≤ s.budget) :
      Costs s.budget t (sequence.next nested closer) nodeCountOf := by
    refine .bind fun first u hfirst => .bind fun others v hothers => ?_
    have hpaid := (costs_item hn t).paid hfirst
    have hmore := (hn.sequence closer u).paid hothers
    apply Costs.pure
    rw [nodeCountOf_append]
    omega
  refine .seq forward_skipLayout fun _ t ht => .rest ?_
  split
  · exact .pure (by simpa using ht)
  · exact .unclosed _
  · split
    · refine .seq (.advance _) fun _ u hu => ?_
      apply Costs.pure
      rw [nodeCountOf_nil]
      omega
    · exact hnext t ht
  · exact hnext t ht

/-- The nodes of an item are added to those of the items after it. -/
theorem length_nodesOfItems_append (found : Option Expr) (items : List Item) :
    (nodesOfItems (found.toList.map .expr ++ items)).length
      = nodeCountOf found.toList + (nodesOfItems items).length := by
  cases found with
  | none => simp
  | some e => simp [nodesOfItems, Expr.nodeCount]

/-- The nodes of a region are those of its items, since separators are no nodes. -/
theorem costs_region (hn : nested.Thrifty) (s : Scan) :
    Costs s.budget s (region nested) fun found => (nodesOfItems found.1).length := by
  refine .seq forward_skipLayout fun _ t ht => .rest ?_
  have hmissing : Costs s.budget t region.missing fun found => (nodesOfItems found.1).length := by
    refine .offset (.seq (.note _) fun _ u hu => ?_)
    apply Costs.pure
    simp only [nodesOfItems, List.length_nil]
    omega
  have hnext : Costs s.budget t (region.next nested)
      fun found => (nodesOfItems found.1).length := by
    refine .bind fun first u hfirst => .bind fun others v hothers => ?_
    have hpaid := (costs_item hn t).paid hfirst
    have hmore := (hn.region u).paid hothers
    apply Costs.pure
    rw [length_nodesOfItems_append]
    omega
  split
  · exact hmissing
  split
  · exact hmissing
  split
  · dsimp only
    split
    · exact hmissing
    split
    · refine .seq (.advance _) fun _ u hu => .seq (forward_delimiterAfter _) fun closing v hv => ?_
      apply Costs.pure
      simp only [nodesOfItems, List.length_nil]
      omega
    split
    · refine .seq (.advance _) fun _ u hu => .seq (forward_delimiterAfter _) fun _ v hv => ?_
      refine .bind fun others w hothers => ?_
      have hmore := (hn.region v).paid hothers
      apply Costs.pure
      simp only [nodesOfItems]
      omega
    · exact hnext
  · exact hnext

/-- Rows add to the nodes of the cells that have been collected. -/
theorem costs_rows (hn : nested.Thrifty) (row : Row) (cell : Cell) (s : Scan) :
    Costs (s.budget + (nodesOfCells row).length + nodeCountOf cell) s (rows nested row cell)
      fun rows => (nodesOfRows rows).length := by
  let funds := s.budget + (nodesOfCells row).length + nodeCountOf cell
  have hclosed := length_nodesOfCells_append row cell
  have hlast : (nodesOfRows (rows.last row cell)).length
      ≤ (nodesOfCells row).length + nodeCountOf cell := by
    unfold rows.last
    split
    · exact Nat.zero_le _
    · simp only [nodesOfRows, List.append_nil]
      omega
  have hend (t : Scan) (ht : t.budget ≤ s.budget) : Costs funds t
      (Pure.pure (rows.last row cell)) fun rows => (nodesOfRows rows).length := by
    apply Costs.pure
    omega
  have hothers (t : Scan) (ht : t.budget ≤ s.budget) : Costs funds t
      (nested.rows [] [] >>= fun others => Pure.pure ((row ++ [cell]) :: others))
      fun rows => (nodesOfRows rows).length := by
    refine .bind fun others v hrun => ?_
    have hmore := (hn.rows [] [] t).paid hrun
    apply Costs.pure
    simp only [nodesOfRows, nodesOfCells, List.length_append, List.length_nil, hclosed,
      nodeCountOf_nil] at hmore ⊢
    omega
  refine .seq forward_skipLayout fun _ t ht => .rest ?_
  have hmissing : Costs funds t (rows.missing row cell) fun rows => (nodesOfRows rows).length :=
    .offset (.seq (.note _) fun _ u hu => hend u (by omega))
  have hnext : Costs funds t (rows.next nested row cell)
      fun rows => (nodesOfRows rows).length := by
    refine .bind fun first u hfirst => ?_
    have hpaid := (costs_item hn t).paid hfirst
    refine (hn.rows row (cell ++ first.toList) u).mono fun rows => ?_
    rw [nodeCountOf_append]
    omega
  split
  · exact hmissing
  split
  · exact hmissing
  split
  · refine .seq (.advance _) fun _ u hu => (hn.rows (row ++ [cell]) [] u).mono fun rows => ?_
    rw [hclosed, nodeCountOf_nil]
    omega
  split
  · dsimp only
    split
    · refine .seq (.advance _) fun _ u hu => .rest ?_
      split
      · exact .seq (forward_through _) fun _ v hv => hothers v (by omega)
      · exact hothers u (by omega)
    split
    · refine .seq (.advance _) fun _ u hu => .seq forward_environmentName fun _ v hv => ?_
      exact hend v (by omega)
    · exact hnext
  · exact hnext

/-! ## Commands -/

/-- An environment is an array, perhaps between delimiters: two nodes and those of its cells. -/
theorem costs_environment (hn : nested.Thrifty) (s : Scan) :
    Costs (s.budget + 2) s (environment nested) fun found => nodeCountOf found.toList := by
  have hnothing {m : Reading Unit} (hm : m.Forward) (t : Scan) (ht : t.budget ≤ s.budget) :
      Costs (s.budget + 2) t (m >>= fun _ => Pure.pure none)
        fun found => nodeCountOf found.toList := by
    refine .seq hm fun _ u hu => ?_
    apply Costs.pure
    rw [Option.toList_none, nodeCountOf_nil]
    omega
  refine .seq forward_environmentName fun name t ht => ?_
  split
  · exact .offset (hnothing (.note _) t ht)
  · split
    · refine .seq (.note _) fun _ u hu => hnothing (forward_skipEnvironment _) u (by omega)
    · refine .ite (fun _ => .seq forward_columnSpecification fun _ u hu => ?_)
        fun _ => .seq (.pure _) fun _ u hu => ?_
      all_goals
        refine .bind fun rows v hrows => ?_
        have hpaid := (hn.rows [] [] u).paid hrows
        simp only [nodesOfCells, List.length_nil, nodeCountOf_nil] at hpaid
        split
        · apply Costs.pure
          simp [Expr.nodeCount, Expr.nodes, nodesOfItems]
          omega
        · apply Costs.pure
          simp [Expr.nodeCount, Expr.nodes]
          omega

/-- A construction over one argument. -/
theorem costs_overArgument (hn : nested.Thrifty) (s : Scan) {build : Expr → Base}
    (hbuild : ∀ e, (build e).expr.nodeCount ≤ e.nodeCount + 2) :
    Costs (s.budget + 3) s (argument nested >>= fun e => Pure.pure (some (build e)))
      costOfBase := by
  refine .bind fun e t he => ?_
  have hargument := (costs_argument hn s).paid he
  have hnodes := hbuild e
  apply Costs.pure
  rw [costOfBase_some]
  omega

/-- A construction over two arguments. -/
theorem costs_overArguments (hn : nested.Thrifty) (s : Scan) {build : Expr → Expr → Base}
    (hbuild : ∀ e e', (build e e').expr.nodeCount = e.nodeCount + e'.nodeCount + 1) :
    Costs (s.budget + 3) s (argument nested >>= fun e => argument nested >>= fun e' =>
      Pure.pure (some (build e e'))) costOfBase := by
  refine .bind fun e t he => .bind fun e' u he' => ?_
  have hfirst := (costs_argument hn s).paid he
  have hsecond := (costs_argument hn t).paid he'
  have hnodes := hbuild e e'
  apply Costs.pure
  rw [costOfBase_some]
  omega

/-- A delimited region is a node and those of its content. -/
theorem costs_delimited (hn : nested.Thrifty) (s : Scan) :
    Costs (s.budget + 1) s (delimited nested) Expr.nodeCount := by
  refine .seq (forward_delimiterAfter _) fun opening t ht => .bind fun found u hrun => ?_
  have hcontent := (hn.region t).paid hrun
  apply Costs.pure
  simp only [Expr.nodeCount, Expr.nodes, List.length_cons]
  omega

/-- A radical with an index.  The bracket pays for the index and for the argument. -/
theorem costs_root (hn : nested.Thrifty) (hrest : s.rest ≠ []) :
    Costs s.budget s (advance 1 >>= fun _ => nested.sequence (some .bracket) >>= fun index =>
      argument nested >>= fun base => Pure.pure (some (.side (.root (.ofList index) base))))
      costOfBase := by
  have hbracket : (s.advance 1).budget + 3 ≤ s.budget := Scan.budget_advance hrest Nat.one_pos
  refine .take (.bind fun index t hindex => .bind fun base u hbase => ?_)
  have hmembers := (hn.sequence _ _).paid hindex
  have hargument := (costs_argument hn t).paid hbase
  have hpacked := Expr.nodeCount_ofList_le index
  have hboth := Expr.nodeCount_parts (e := .root (.ofList index) base) rfl
  exact .side (by omega)

/-- Besides what it takes, a command costs no more than its backslash pays for. -/
theorem costs_command (hn : nested.Thrifty) (start : Nat) (found : Command) (s : Scan) :
    Costs (s.budget + 3) s (command nested start found) costOfBase := by
  -- a leaf of its own, at the scan `t` at which the command ends
  have hleaf {b : Base} (hb : b.expr.nodeCount = 1) (t : Scan) (ht : t.budget ≤ s.budget) :
      Costs (s.budget + 3) t (Pure.pure (some b)) costOfBase := by
    apply Costs.pure
    rw [costOfBase_some]
    omega
  have hpart {build : Expr → Base}
      (hbuild : ∀ e, (build e).expr.nodes = (build e).expr :: e.nodes) (t : Scan) :
      Costs (t.budget + 3) t (argument nested >>= fun e => Pure.pure (some (build e)))
        costOfBase := by
    refine costs_overArgument hn t fun e => ?_
    rw [Expr.nodeCount_part (hbuild e)]
    omega
  cases found with
  | symbol | identifier | operatorName | space => exact hleaf rfl s (Nat.le_refl _)
  | limits | ignored | right | middle | endEnvironment => exact .noBase (Nat.le_add_right _ _)
  | sized factor =>
    refine .seq forward_delimiter fun found t ht => ?_
    split
    · next glyph =>
      have htwo : (Expr.scaled factor glyph.expr).nodeCount = 2 := rfl
      exact .side (by omega)
    · exact .seq (.note _) fun _ u hu => .noBase (by omega)
  | decoration kind mark side =>
    refine costs_overArgument hn s fun e => Nat.le_of_eq ?_
    cases side with
    | above => exact Expr.nodeCount_parts (e := .over false e (.symbol kind mark)) rfl
    | below => exact Expr.nodeCount_parts (e := .under false e (.symbol kind mark)) rfl
  | boxed | phantom | cancel => exact hpart (fun e => rfl) s
  | fraction style => exact costs_overArguments hn s fun e e' => Expr.nodeCount_parts rfl
  | overset | underset =>
    refine costs_overArguments hn s fun e e' => ?_
    rw [Nat.add_comm e.nodeCount]
    exact Expr.nodeCount_parts rfl
  | sqrt =>
    refine .seq forward_skipLayout fun _ t ht => .rest ?_
    split
    · next hrest => exact (costs_root hn (by simp [hrest])).mono fun found => by omega
    · exact (hpart (fun e => rfl) t).mono fun found => by omega
  | left =>
    refine .bind fun e t hrun => ?_
    have hregion := (costs_delimited hn s).paid hrun
    exact .side (by omega)
  | beginEnvironment =>
    refine .bind fun found t hrun => ?_
    have hrows := (costs_environment hn s).paid hrun
    apply Costs.pure
    have hsame : (found.map Base.side).map Base.expr = found := by cases found <;> rfl
    rw [costOfBase, hsame]
    omega
  | namedOperator limits =>
    exact .seq forward_textArgument fun name t ht => hleaf rfl t ht

/-- A style command adds a node to those of its argument, and its name has paid for two. -/
theorem costs_styled (hn : nested.Thrifty) (style : StyleCommand) (s : Scan) :
    Costs (s.budget + 2) s (styled nested style) Expr.nodeCount := by
  cases style with
  | text style =>
    refine .seq forward_textArgument fun text t ht => ?_
    have hone : (Expr.text style text).nodeCount = 1 := rfl
    apply Costs.pure
    omega
  | formula style =>
    have hstyled (members : List Expr) :
        (Expr.styled style members).nodeCount = nodeCountOf members + 1 :=
      Expr.nodeCount_members rfl
    refine .seq forward_skipLayout fun _ t ht => .rest ?_
    split
    · refine .seq (.advance _) fun _ u hu => .bind fun members v hrun => ?_
      have hmembers := (hn.sequence _ u).paid hrun
      apply Costs.pure
      rw [hstyled]
      omega
    · refine .bind fun found u hrun => ?_
      have hbase := (costs_nestedBase hn t).paid hrun
      rw [costOfBase] at hbase
      apply Costs.pure
      rw [hstyled]
      omega

/-! ## Bases -/

/-- What is made after characters have been taken, which pay for three nodes. -/
theorem Costs.paidAhead {α : Type} {f : Unit → Reading α} {count : α → Nat} {taken : Nat}
    (hrest : s.rest ≠ []) (htaken : 0 < taken)
    (h : ∀ t, Costs (t.budget + 3) t (f ()) count) :
    Costs s.budget s (advance taken >>= f) count := by
  have hbytes := Scan.budget_advance hrest htaken
  exact .take ((h _).mono fun a => by omega)

/-- A command has been paid for by its backslash and its name. -/
theorem costs_commandBase (hn : nested.Thrifty) {after : List Char} (hrest : s.rest ≠ []) :
    Costs s.budget s (commandBase nested after) costOfBase := by
  have hnothing : Costs s.budget s (Pure.pure none) costOfBase := .noBase (Nat.le_refl _)
  unfold commandBase
  dsimp only
  split
  · exact hnothing
  split
  · split
    · exact hnothing
    · exact .offset (.paidAhead hrest (by omega) fun t => costs_command hn _ _ t)
  · next glyph _ =>
    have hone : glyph.expr.nodeCount = 1 := rfl
    exact .paidAhead hrest (by omega) fun t => .side (by omega)
  · refine .paidAhead hrest (by omega) fun t => .bind fun e u hrun => ?_
    have hstyled := (costs_styled hn _ t).paid hrun
    exact .side (by omega)

/-- A base pays for itself, unless it is the empty base of a script ahead. -/
theorem affords_base (hn : nested.Thrifty) {t : Scan} {b : Base}
    (hrun : Reading.base nested s = .ok (some b) t) : s.Affords t b := by
  have hlayout := (Scan.Leads.advance s (layoutLength s.rest)).budget_le
  unfold Reading.base at hrun
  rw [run_bind_ok (run_skipLayout s), run_bind_ok (run_rest _)] at hrun
  generalize s.advance (layoutLength s.rest) = u at hrun hlayout
  have hpaid {m : Reading (Option Base)} (hm : Costs u.budget u m costOfBase)
      (h : m u = .ok (some b) t) : s.Affords t b := by
    have hcost := hm.paid h
    rw [costOfBase_some] at hcost
    exact .inl (by omega)
  -- a leaf is paid for by any of its characters
  have hleaf {e : Expr} {count : Nat} (hrest : u.rest ≠ []) (hcount : 0 < count)
      (he : e.nodeCount = 1) : Costs u.budget u
        (advance count >>= fun _ => Pure.pure (some (Base.side e))) costOfBase :=
    .paidAhead hrest hcount fun v => .side (by omega)
  cases hrest : u.rest with
  | nil =>
    rw [hrest] at hrun
    cases hrun
  | cons c after =>
    have hne : u.rest ≠ [] := by simp [hrest]
    rw [hrest] at hrun
    dsimp only at hrun
    split at hrun
    · refine hpaid (.paidAhead hne Nat.one_pos fun v => .bind fun members w hmembers => ?_) hrun
      have hpaidMembers := (hn.sequence _ v).paid hmembers
      have hgroup := Expr.nodeCount_members (e := .group members) rfl
      exact .side (by omega)
    split at hrun
    · exact hpaid (hleaf hne (by omega) rfl) hrun
    split at hrun
    · exact hpaid (costs_commandBase hn hne) hrun
    split at hrun
    · next hscript =>
      cases hrun
      refine .inr ⟨rfl, ?_, hlayout⟩
      simpa [Scan.ScriptAhead, hrest] using hscript
    split at hrun
    · next hprime =>
      have hcount : 0 < primeCount u.rest := by simp [hrest, hprime, primeCount]
      exact hpaid (hleaf hne hcount rfl) hrun
    split at hrun
    · exact hpaid (hleaf hne Nat.one_pos rfl) hrun
    cases hchar : Expr.ofChar? c with
    | none =>
      rw [hchar] at hrun
      cases hrun
    | some e =>
      rw [hchar] at hrun
      exact hpaid (hleaf hne Nat.one_pos (Expr.nodeCount_ofChar? hchar)) hrun

end Reading

namespace Nested

/-- The rules pay for what they make if their nested parts do. -/
theorem Thrifty.rules {nested : Nested} (hn : nested.Thrifty) : nested.rules.Thrifty :=
  ⟨affords_base hn, costs_sequence hn, costs_region hn, costs_rows hn, hn.forward.rules⟩

/-- **Nothing is made that has not been paid for**, to any depth. -/
theorem thrifty_ofDepth (depth : Nat) : (ofDepth depth).Thrifty := by
  induction depth with
  | zero =>
    refine ⟨?_, fun _ s => ?_, fun s => ?_, fun row cell s => ?_, forward_ofDepth 0⟩
    · intro s t b h
      cases h
    · exact .pure (by simp)
    · exact .pure (by simp [nodesOfItems])
    · refine .pure ?_
      rw [nodesOfRows, List.length_nil]
      omega
  | succ depth ih => exact ih.rules

end Nested

/-- **No blow-up.**  A formula has at most three nodes, counted at every depth, for each byte of
its text. -/
theorem nodeCount_le_three_mul_size {text : String} {formula : Formula}
    (h : parse text = .ok formula) : (nodesOf formula).length ≤ 3 * text.utf8ByteSize := by
  simp only [parse, read] at h
  split at h
  · next members finish hrun =>
    cases h
    have hread : (Nested.forRest text.toList).sequence none (Scan.start text)
        = .ok members finish := hrun
    have hpaid := ((Nested.thrifty_ofDepth _).sequence none _).paid hread
    have hbytes : (Scan.start text).budget = 3 * text.utf8ByteSize := by
      rw [Scan.budget, Scan.start, utf8Length_toList]
    have hsettled := nodeCountOf_settleFrom none members
    rw [nodeCountOf] at hsettled
    rw [settleOperators, hsettled]
    omega
  · cases h

/-- Missing bases and missing arguments, and a prime for an argument. -/
theorem nodeCount_le_three_mul_size_of_missing :
    parse "^_'^" = .ok [.subSup .empty (.primes 1) .empty, .super .empty .empty] ∧
      (nodesOf [.subSup .empty (.primes 1) .empty, .super .empty .empty]).length
        ≤ 3 * "^_'^".utf8ByteSize := by
  have hread : parse "^_'^" = .ok [.subSup .empty (.primes 1) .empty, .super .empty .empty] :=
    eq_ok_of_toOption (by decide +kernel)
  exact ⟨hread, nodeCount_le_three_mul_size hread⟩

/-! ## The bound is attained -/

namespace Reading

open Nested (unbounded)

/-- In front of a caret a missing base is an empty group. -/
theorem takes_base_missing (rest : List Char) :
    unbounded.base.Takes [] (some (.side .empty)) ('^' :: rest) := by
  rw [Nested.base_unbounded]
  exact .layout rfl (.rest (.pure _ _))

/-- So is a missing argument, in front of a caret or at the end. -/
theorem takes_argument_missing (count : Nat) :
    (argument unbounded).Takes [] .empty (List.replicate count '^') := by
  cases count with
  | zero => exact .layout rfl (.rest (.pure _ _))
  | succ count => exact .layout rfl (.rest (.seq (takes_base_missing _) (.pure _ _)))

/-- A base takes one caret only. -/
theorem takes_scriptsFrom_carets (bound : Nat) (lower : Option Expr) (upper : Expr) (count : Nat) :
    (scriptsFrom unbounded (bound + 1) ⟨lower, some upper, false⟩).Takes []
      ⟨lower, some upper, false⟩ (List.replicate count '^') := by
  cases count with
  | zero => exact .layout rfl (.rest (.pure _ _))
  | succ count => exact .layout rfl (.rest (.pure _ _))

/-- A caret among carets is a superscript without a base and without an argument. -/
theorem takes_item_caret (count : Nat) :
    (item unbounded).Takes ['^'] (some (.super .empty .empty)) (List.replicate count '^') := by
  have hcarets : layoutLength (List.replicate count '^') = 0 ∧
      primeCount (List.replicate count '^') = 0 := by
    cases count <;> exact ⟨rfl, rfl⟩
  have hupper : (superscript unbounded).Takes [] .empty (List.replicate count '^') :=
    .layout hcarets.1 (.noPrimes hcarets.2 (takes_argument_missing count))
  have hfound : (scriptsFrom unbounded 3 ⟨none, none, false⟩).Takes ['^']
      ⟨none, some .empty, false⟩ (List.replicate count '^') :=
    .layout rfl (.rest (.cons (.seq hupper (takes_scriptsFrom_carets 1 _ _ count))))
  have hlimits : (limits unbounded .side).Takes [] .side ('^' :: List.replicate count '^') :=
    (takes_limits .side rfl (by simp [commandAt?])).1
  have hscripts : (scripts unbounded (.side .empty)).Takes ['^'] (.super .empty .empty)
      (List.replicate count '^') := takes_scripts (b := .side .empty) ['^'] hlimits rfl hfound
  exact .layout rfl (.offset fun _ => .seq (takes_base_missing _) (.map hscripts))

/-- Carets alone are items without bases, one after the other. -/
theorem takes_sequence_carets (count : Nat) :
    (unbounded.sequence none).Takes (List.replicate count '^')
      (List.replicate count (.super .empty .empty)) [] := by
  induction count with
  | zero =>
    rw [Nested.sequence_unbounded]
    exact .layout rfl (.rest (.pure _ _))
  | succ count ih =>
    have hitem : (item unbounded).Takes ['^'] (some (.super .empty .empty))
        (List.replicate count '^' ++ []) := by
      rw [List.append_nil]
      exact takes_item_caret count
    rw [Nested.sequence_unbounded]
    exact .layout rfl (.rest (.bind hitem (.map ih)))

end Reading

/-- A row of such superscripts has three nodes for each of them. -/
theorem nodeCountOf_replicate_missing (count : Nat) :
    nodeCountOf (List.replicate count (.super .empty .empty)) = 3 * count := by
  have hthree : (Expr.super .empty .empty).nodeCount = 3 := rfl
  induction count with
  | zero => rfl
  | succ count ih =>
    rw [List.replicate_succ, nodeCountOf_cons, hthree, ih]
    omega

/-- **The bound is sharp** for every size: a row of carets has three nodes for each of them. -/
theorem nodeCount_replicate_caret (count : Nat) :
    ∃ formula, parse (String.ofList (List.replicate count '^')) = .ok formula ∧
      (nodesOf formula).length = 3 * count := by
  have hrun := Reading.takes_sequence_carets count
    (.start (String.ofList (List.replicate count '^'))) (by simp [Scan.start])
  refine ⟨_, by rw [parse, read_of_sequence hrun], ?_⟩
  exact (nodeCountOf_settleFrom none _).trans (nodeCountOf_replicate_missing count)

end OfficeMath
