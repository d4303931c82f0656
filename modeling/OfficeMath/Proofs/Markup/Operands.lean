import OfficeMath.Proofs.Markup.Lowering
import OfficeMath.Proofs.Markup.Pieces

/-!
# Operators are paired with operands by parity

`pairOperands` goes from left to right, and an operator that has been used up as an operand is no
operator any more.  So whether a sum or an integral takes an operand is not settled by what it is
but by all the n-ary operators before it.  Here this is said without a pass: of the n-ary operators
that stand in a row every other one is applied to the next member, beginning with the first
(`naryBefore` counts those before a place).

* `appliedAt_pairOperands` — which members are applied, and to what;
* `parts_pairOperands` — no member is lost or written twice;
* `pairOperands_append` — pairing can be cut wherever no operator waits for its operand;
* `writeFormula_pairs_operands` — the same of the elements in an `oMath`.
-/

namespace OfficeMath

open Xml (Element)

/-- Whether an expression is an n-ary operator. -/
def Expr.isNary (display : Display) (e : Expr) : Bool := (e.naryHead? display).isSome

/-- The number of n-ary operators in a row right before place `i`. -/
def naryBefore (display : Display) (formula : Formula) : (i : Nat) → Nat
  | 0 => 0
  | i + 1 =>
    if formula[i]?.any (Expr.isNary display) then naryBefore display formula i + 1 else 0

/-- The expressions of a member, an operator before its operand. -/
def Member.parts : Member → List Expr
  | .single e => [e]
  | .applied _ operator operand => [operator, operand]

/-- At place `i` of what the members consist of, an operator is applied to an operand. -/
def AppliedAt (members : List Member) (i : Nat) (head : NaryHead) (operator operand : Expr) :
    Prop :=
  ∃ before after, members = before ++ .applied head operator operand :: after ∧
    (before.flatMap Member.parts).length = i

/-- The elements that a formula is written as: the content of its `oMath`. -/
def mathContent (display : Display) (root : Element) : List Element :=
  match display with
  | .inline => root.childElements
  | .block => (root.child? "oMath").toList.flatMap Element.childElements

/-! ## Runs of operators -/

section
variable {display : Display} {formula : Formula}

/-- A run of large operators is no longer than what comes before. -/
theorem naryBefore_le (i : Nat) : naryBefore display formula i ≤ i := by
  induction i with
  | zero => exact Nat.le_refl 0
  | succ i ih =>
    rw [naryBefore]
    split <;> omega

/-- A member in front makes a run longer that begins the formula, if it is an operator. -/
theorem naryBefore_cons (e : Expr) (i : Nat) :
    naryBefore display (e :: formula) (i + 1)
      = if e.isNary display ∧ naryBefore display formula i = i then i + 1
        else naryBefore display formula i := by
  induction i with
  | zero => cases h : e.isNary display <;> simp [naryBefore, h]
  | succ i ih =>
    have hle : naryBefore display formula i ≤ i := naryBefore_le i
    rw [naryBefore, List.getElem?_cons_succ, ih, naryBefore]
    grind

/-- A run is counted in the members up to its end. -/
theorem naryBefore_take (i : Nat) {count : Nat} (h : i ≤ count) :
    naryBefore display (formula.take count) i = naryBefore display formula i := by
  induction i with
  | zero => rfl
  | succ i ih =>
    have hmember : (formula.take count)[i]? = formula[i]? := List.getElem?_take_of_lt h
    rw [naryBefore, naryBefore, ih (Nat.le_of_succ_le h), hmember]

/-- A member that is no operator does not count. -/
theorem naryBefore_cons_of_none {e : Expr} (h : e.naryHead? display = none) (i : Nat) :
    naryBefore display (e :: formula) (i + 1) = naryBefore display formula i := by
  simp [naryBefore_cons, Expr.isNary, h]

/-- An operator and its operand do not change the parity of a run after them, whether this run goes
back to them or not. -/
theorem naryBefore_applied {e : Expr} {head : NaryHead} (h : e.naryHead? display = some head)
    (next : Expr) (i : Nat) :
    naryBefore display (e :: next :: formula) (i + 2) % 2 = naryBefore display formula i % 2 := by
  have hle : naryBefore display formula i ≤ i := naryBefore_le i
  have hnary : e.isNary display := by simp [Expr.isNary, h]
  rw [naryBefore_cons, naryBefore_cons]
  grind

end

/-! ## The members of a formula -/

section
variable {members : List Member} {i : Nat} {head : NaryHead} {operator operand : Expr}

/-- Nothing is applied in an empty formula. -/
theorem not_appliedAt_nil : ¬ AppliedAt [] i head operator operand := by
  rintro ⟨before, after, heq, -⟩
  simp at heq

/-- A place in the members is a place in the first one or in the others. -/
theorem appliedAt_cons {first : Member} :
    AppliedAt (first :: members) i head operator operand ↔
      (i = 0 ∧ first = .applied head operator operand) ∨
        ∃ j, i = first.parts.length + j ∧ AppliedAt members j head operator operand := by
  constructor
  · rintro ⟨before, after, heq, rfl⟩
    cases before with
    | nil =>
      obtain ⟨hfirst, -⟩ := List.cons.inj heq
      exact .inl ⟨rfl, hfirst⟩
    | cons skipped before =>
      obtain ⟨rfl, hmembers⟩ := List.cons.inj heq
      exact .inr ⟨_, by simp, before, after, hmembers, rfl⟩
  · rintro (⟨rfl, rfl⟩ | ⟨j, rfl, before, after, rfl, rfl⟩)
    · exact ⟨[], members, rfl, rfl⟩
    · exact ⟨first :: before, after, rfl, by simp⟩

/-- The first place belongs to the first member. -/
theorem appliedAt_zero {first : Member} :
    AppliedAt (first :: members) 0 head operator operand ↔
      first = .applied head operator operand := by
  have hpos : 0 < first.parts.length := by cases first <;> simp [Member.parts]
  rw [appliedAt_cons]
  constructor
  · rintro (⟨-, hfirst⟩ | ⟨j, hj, -⟩)
    · exact hfirst
    · omega
  · intro hfirst
    exact .inl ⟨rfl, hfirst⟩

/-- The places after a member that stands on its own … -/
theorem appliedAt_single {e : Expr} :
    AppliedAt (.single e :: members) (i + 1) head operator operand ↔
      AppliedAt members i head operator operand := by
  rw [appliedAt_cons]
  simp [Member.parts, Nat.add_comm i 1]

/-- … and those after an operator: the next one is its operand's. -/
theorem not_appliedAt_operand {found : NaryHead} {e next : Expr} :
    ¬ AppliedAt (.applied found e next :: members) 1 head operator operand := by
  intro h
  rcases appliedAt_cons.mp h with ⟨hzero, -⟩ | ⟨j, hj, -⟩
  · exact absurd hzero Nat.one_ne_zero
  · simp only [Member.parts, List.length_cons] at hj
    omega

/-- Behind an operator with its operand two members have been passed. -/
theorem appliedAt_applied {found : NaryHead} {e next : Expr} :
    AppliedAt (.applied found e next :: members) (i + 2) head operator operand ↔
      AppliedAt members i head operator operand := by
  rw [appliedAt_cons]
  simp [Member.parts, Nat.add_comm i 2]

end

/-- **Every other operator of a run is applied**, beginning with the first one, and it is applied to
the member after it. -/
theorem appliedAt_pairOperands (display : Display) (formula : Formula) (i : Nat) (head : NaryHead)
    (operator operand : Expr) :
    AppliedAt (pairOperands display formula) i head operator operand ↔
      formula[i]? = some operator ∧ operator.naryHead? display = some head ∧
        naryBefore display formula i % 2 = 0 ∧ operand = formula[i + 1]?.getD .empty := by
  induction formula using pairOperands.induct display generalizing i with
  | case1 => simp [pairOperands, not_appliedAt_nil]
  | case2 e found hfound =>
    rcases i with _ | _ | i
    · simp only [pairOperands, hfound, appliedAt_zero]
      grind [naryBefore]
    · simp [pairOperands, hfound, not_appliedAt_operand]
    · simp [pairOperands, hfound, appliedAt_applied, not_appliedAt_nil]
  | case3 e hnone =>
    rcases i with _ | i
    · simp only [pairOperands, hnone, appliedAt_zero]
      grind
    · simp [pairOperands, hnone, appliedAt_single, not_appliedAt_nil]
  | case4 e next rest found hfound ih =>
    rcases i with _ | _ | i
    · simp only [pairOperands, hfound, appliedAt_zero]
      grind [naryBefore]
    · have hodd : naryBefore display (e :: next :: rest) 1 = 1 := by
        simp [naryBefore, Expr.isNary, hfound]
      simp [pairOperands, hfound, not_appliedAt_operand, hodd]
    · simp [pairOperands, hfound, appliedAt_applied, ih, naryBefore_applied hfound]
  | case5 e next rest hnone ih =>
    rcases i with _ | i
    · simp only [pairOperands, hnone, appliedAt_zero]
      grind
    · simp [pairOperands, hnone, appliedAt_single, ih, naryBefore_cons_of_none hnone]

/-- The members consist of the formula, and of the empty group if its last operator waits for an
operand. -/
theorem parts_pairOperands (display : Display) (formula : Formula) :
    (pairOperands display formula).flatMap Member.parts
      = formula ++ if naryBefore display formula formula.length % 2 = 1 then [.empty] else [] := by
  induction formula using pairOperands.induct display with
  | case1 => rfl
  | case2 e found hfound => simp [pairOperands, hfound, Member.parts, naryBefore, Expr.isNary]
  | case3 e hnone => simp [pairOperands, hnone, Member.parts, naryBefore, Expr.isNary]
  | case4 e next rest found hfound ih =>
    simp [pairOperands, hfound, Member.parts, ih, naryBefore_applied hfound]
  | case5 e next rest hnone ih =>
    rw [List.length_cons] at ih
    simp [pairOperands, hnone, Member.parts, ih, naryBefore_cons_of_none hnone]

/-- Where no operator waits for its operand the members before and after are independent. -/
theorem pairOperands_append {display : Display} {formula : Formula}
    (h : naryBefore display formula formula.length % 2 = 0) (more : Formula) :
    pairOperands display (formula ++ more)
      = pairOperands display formula ++ pairOperands display more := by
  induction formula using pairOperands.induct display with
  | case1 => rfl
  | case2 e found hfound =>
    have hodd : naryBefore display [e] 1 = 1 := by simp [naryBefore, Expr.isNary, hfound]
    simp [hodd] at h
  | case3 e hnone => cases more <;> simp [pairOperands, hnone]
  | case4 e next rest found hfound ih =>
    rw [List.length_cons, List.length_cons, naryBefore_applied hfound] at h
    simp [pairOperands, hfound, ih h]
  | case5 e next rest hnone ih =>
    rw [List.length_cons, naryBefore_cons_of_none hnone] at h
    have hrest := ih h
    simp only [List.cons_append] at hrest
    simp [pairOperands, hnone, hrest]

/-! ## The elements of a formula -/

/-- The content of the written formula is what its members are written as. -/
theorem mathContent_writeFormula (display : Display) (formula : Formula) :
    mathContent display (writeFormula display formula) = writeMembers display formula := by
  cases display with
  | inline => exact childElements_slot "oMath" _
  | block =>
    rw [mathContent, child?_writeFormula_block]
    simp [Markup.math]

/-- A formula is written piece by piece where no operator waits for its operand. -/
theorem writeMembers_append {display : Display} {formula : Formula}
    (h : naryBefore display formula formula.length % 2 = 0) (more : Formula) :
    writeMembers display (formula ++ more)
      = writeMembers display formula ++ writeMembers display more := by
  rw [writeMembers, pairOperands_append h, List.flatMap_append, writeMembers, writeMembers]

/-- An operator that is applied, between what is written before it and after its operand. -/
theorem writeMembers_applied {display : Display} {formula : Formula} {i : Nat} {head : NaryHead}
    {operator operand : Expr}
    (h : AppliedAt (pairOperands display formula) i head operator operand) :
    writeMembers display formula
      = writeMembers display (formula.take i) ++
        Member.write display (.applied head operator operand) ++
          writeMembers display (formula.drop (i + 2)) := by
  obtain ⟨hoperator, hhead, heven, rfl⟩ := (appliedAt_pairOperands ..).mp h
  obtain ⟨hi, hat⟩ := List.getElem?_eq_some_iff.mp hoperator
  have hdrop : formula.drop i = operator :: formula.drop (i + 1) := by
    rw [List.drop_eq_getElem_cons hi, hat]
  have hcut : naryBefore display (formula.take i) (formula.take i).length % 2 = 0 := by
    rw [List.length_take_of_le (Nat.le_of_lt hi), naryBefore_take i (Nat.le_refl i)]
    exact heven
  have happlied : writeMembers display (formula.drop i)
      = Member.write display (.applied head operator (formula[i + 1]?.getD .empty)) ++
        writeMembers display (formula.drop (i + 2)) := by
    rw [hdrop, writeMembers]
    cases hlast : formula.drop (i + 1) with
    | nil =>
      have hend : formula.length ≤ i + 1 := List.drop_eq_nil_iff.mp hlast
      have hnone : formula[i + 1]? = none := List.getElem?_eq_none hend
      have hmore : formula.drop (i + 2) = [] := List.drop_eq_nil_iff.mpr (by omega)
      simp [pairOperands, hhead, hnone, hmore, writeMembers]
    | cons next rest =>
      have hnext : formula[i + 1]? = some next := by
        rw [← List.head?_drop, hlast]
        rfl
      have hmore : formula.drop (i + 2) = rest := by
        rw [← List.tail_drop, hlast]
        rfl
      simp [pairOperands, hhead, hnext, hmore, writeMembers]
  calc writeMembers display formula
      = writeMembers display (formula.take i ++ formula.drop i) := by rw [List.take_append_drop]
    _ = writeMembers display (formula.take i) ++ writeMembers display (formula.drop i) :=
        writeMembers_append hcut _
    _ = _ := by rw [happlied, List.append_assoc]

/-- **N-ary operators are paired with operands by parity.**  A member is the operator of a `nary`
exactly if it is an n-ary operator and the n-ary operators right before it are even in number; its
operand is the member after it, or the empty group at the end.  Operators and operands in order are
the formula again, with an empty group after it exactly if it ends in an odd run of operators.  If
it does not, what follows is written on its own. -/
theorem writeFormula_pairs_operands (display : Display) (formula : Formula) :
    (∀ i head operator operand,
      AppliedAt (pairOperands display formula) i head operator operand ↔
        formula[i]? = some operator ∧ operator.naryHead? display = some head ∧
          naryBefore display formula i % 2 = 0 ∧ operand = formula[i + 1]?.getD .empty) ∧
    (∀ i head operator operand,
      AppliedAt (pairOperands display formula) i head operator operand →
        let limits := writeLimits display .default operator
        mathContent display (writeFormula display formula)
          = mathContent display (writeFormula display (formula.take i)) ++
            [Markup.nary head.glyph head.location limits.1 limits.2
              (write display .default operand)] ++
            mathContent display (writeFormula display (formula.drop (i + 2)))) ∧
    (pairOperands display formula).flatMap Member.parts
      = formula ++ (if naryBefore display formula formula.length % 2 = 1 then [.empty] else []) ∧
    (naryBefore display formula formula.length % 2 = 0 →
      ∀ more, mathContent display (writeFormula display (formula ++ more))
        = mathContent display (writeFormula display formula) ++
          mathContent display (writeFormula display more)) := by
  refine ⟨appliedAt_pairOperands display formula, ?_, parts_pairOperands display formula, ?_⟩
  · intro i head operator operand happlied
    simp only [mathContent_writeFormula]
    exact writeMembers_applied happlied
  · intro heven more
    simp only [mathContent_writeFormula]
    exact writeMembers_append heven more

/-- In `∑∏x∫` the product is the operand of the sum, and the integral waits for its own; after `x`
the formula can be cut. -/
theorem writeFormula_pairs_operands_of_sum_and_product :
    let sum := Expr.symbol .operator "∑"
    let product := Expr.under true (.symbol .operator "∏") (.identifier "i")
    let closed := [sum, product, .identifier "x"]
    let integral := [Expr.symbol .operator "∫"]
    let limits := writeLimits .block .default sum
    AppliedAt (pairOperands .block closed) 0 ⟨"∑", .underOver⟩ sum product ∧
      mathContent .block (writeFormula .block closed)
        = mathContent .block (writeFormula .block (closed.take 0)) ++
          [Markup.nary "∑" .underOver limits.1 limits.2 (write .block .default product)] ++
          mathContent .block (writeFormula .block (closed.drop 2)) ∧
      naryBefore .block closed closed.length % 2 = 0 ∧
      mathContent .block (writeFormula .block (closed ++ integral))
        = mathContent .block (writeFormula .block closed) ++
          mathContent .block (writeFormula .block integral) := by
  intro sum product closed integral limits
  have hpairs : AppliedAt (pairOperands .block closed) 0 ⟨"∑", .underOver⟩ sum product :=
    ⟨[], _, rfl, rfl⟩
  have heven : naryBefore .block closed closed.length % 2 = 0 := rfl
  obtain ⟨-, happlied, -, happend⟩ := writeFormula_pairs_operands .block closed
  exact ⟨hpairs, happlied _ _ _ _ hpairs, heven, happend heven integral⟩

end OfficeMath
