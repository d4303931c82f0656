import OfficeMath.Formula.Operators

/-!
# Runs of binary operators

`settleOperators` judges every binary operator by the class that its left neighbour has been
given, and so by a decision that it made itself one step before.  Here is what comes out of it, in
terms of the formula as it was: in a run of binary operators every other one keeps its class.
Which half of them does is settled by what stands before the run (`runIsBlocked`), and the last
operator of a run needs, on top of that, a second operand (`keepsClass`).

* `getElem?_settleOperators` — the local rule, which looks at the neighbour as it has been settled;
* `refusesAfter_leftNeighbour` — the law of the run: whether this neighbour refuses an operator
  after it is a question of parity;
* `settleOperators_closed_form` — the whole pass without a pass, and that there is nothing left to
  settle in a formula that has been settled.
-/

namespace OfficeMath

/-- Whether an expression is a bare binary operator. -/
def Expr.isBinaryOperator (e : Expr) : Bool := e.symbolClass? = some .binary

/-- The number of binary operators in a row right before place `i`. -/
def operatorsBefore (formula : Formula) : (i : Nat) → Nat
  | 0 => 0
  | i + 1 => if formula[i]?.any Expr.isBinaryOperator then operatorsBefore formula i + 1 else 0

/-- Whether the run of binary operators that place `i` belongs to begins the formula or stands
right after an operator, a relation, an opening symbol or punctuation. -/
def runIsBlocked (formula : Formula) (i : Nat) : Bool :=
  match i - operatorsBefore formula i with
  | 0 => true
  | before + 1 =>
    (formula[before]?.bind Expr.symbolClass?).any
      [SymbolClass.operator, .relation, .opening, .punctuation].contains

/-- Whether a binary operator at place `i` stays one: its place in its run is right, and what comes
after it is no relation, closing symbol or punctuation. -/
def keepsClass (formula : Formula) (i : Nat) : Bool :=
  (if runIsBlocked formula i then operatorsBefore formula i % 2 = 1
    else operatorsBefore formula i % 2 = 0) &&
  !(formula[i + 1]?.bind Expr.symbolClass?).any
    [SymbolClass.relation, .closing, .punctuation].contains

/-! ## One member -/

/-- Whether a binary operator loses its class because of the member before it, or because there is
none. -/
def refusesAfter : (previous : Option Expr) → Bool
  | none => true
  | some previous => previous.symbolClass?.any SymbolClass.refusesOperatorAfter

/-- Whether a binary operator loses its class because of the member after it. -/
def refusesBefore (next : Option Expr) : Bool :=
  (next.bind Expr.symbolClass?).any SymbolClass.refusesOperatorBefore

/-- An operator is admitted where neither neighbour refuses it. -/
theorem admitsOperator_eq (previous next : Option Expr) :
    admitsOperator previous next = (!refusesAfter previous && !refusesBefore next) := by
  cases previous <;> rfl

/-- A binary operator keeps its class if it is admitted. -/
theorem settle_of_isBinaryOperator {e : Expr} (h : e.isBinaryOperator)
    (previous next : Option Expr) :
    e.settle previous next = if admitsOperator previous next then e else e.toOrdinary := by
  have hclass : e.symbolClass? = some .binary := by simpa [Expr.isBinaryOperator] using h
  cases hadmits : admitsOperator previous next <;> simp [Expr.settle, hclass, hadmits]

/-- Nothing but a binary operator is settled. -/
theorem settle_of_not_isBinaryOperator {e : Expr} (h : e.isBinaryOperator = false)
    (previous next : Option Expr) : e.settle previous next = e := by
  have hclass : e.symbolClass? ≠ some .binary := by simpa [Expr.isBinaryOperator] using h
  simp [Expr.settle, hclass]

/-- A binary operator that has lost its class is an ordinary symbol. -/
theorem symbolClass?_toOrdinary {e : Expr} (h : e.isBinaryOperator) :
    e.toOrdinary.symbolClass? = some .ordinary := by
  cases e with
  | symbol kind glyph => rfl
  | _ => cases h

/-- Settling a member changes nothing for the operator before it: no class that refuses one is
given or taken away. -/
theorem refusesBefore_settle (e : Expr) (previous next : Option Expr) :
    refusesBefore (some (e.settle previous next)) = refusesBefore (some e) := by
  cases h : e.isBinaryOperator with
  | false => rw [settle_of_not_isBinaryOperator h]
  | true =>
    have hclass : e.symbolClass? = some .binary := by simpa [Expr.isBinaryOperator] using h
    rw [settle_of_isBinaryOperator h]
    split
    · rfl
    · simp [refusesBefore, symbolClass?_toOrdinary h, hclass, SymbolClass.refusesOperatorBefore]

/-- A member that has been settled stays as it is between neighbours that refuse no less and no
more. -/
theorem settle_settle {e : Expr} {previous next next' : Option Expr}
    (h : refusesBefore next' = refusesBefore next) :
    (e.settle previous next).settle previous next' = e.settle previous next := by
  have hadmits : admitsOperator previous next' = admitsOperator previous next := by
    rw [admitsOperator_eq, admitsOperator_eq, h]
  cases hbinary : e.isBinaryOperator with
  | false => rw [settle_of_not_isBinaryOperator hbinary, settle_of_not_isBinaryOperator hbinary]
  | true =>
    have hordinary : e.toOrdinary.isBinaryOperator = false := by
      simp [Expr.isBinaryOperator, symbolClass?_toOrdinary hbinary]
    rw [settle_of_isBinaryOperator hbinary]
    split
    · next hadmitted => rw [settle_of_isBinaryOperator hbinary, hadmits, if_pos hadmitted]
    · rw [settle_of_not_isBinaryOperator hordinary]

/-! ## The local rule -/

/-- The first member settles between what is before the formula and the second one. -/
theorem getElem?_settleFrom_zero (previous : Option Expr) (formula : Formula) :
    (settleFrom previous formula)[0]? = formula[0]?.map (.settle previous formula[1]?) := by
  cases formula with
  | nil => rfl
  | cons e rest => simp [settleFrom, List.head?_eq_getElem?]

/-- Any other member settles between the settled one before it and the one behind it. -/
theorem getElem?_settleFrom_succ (previous : Option Expr) (formula : Formula) (i : Nat) :
    (settleFrom previous formula)[i + 1]?
      = formula[i + 1]?.map (.settle (settleFrom previous formula)[i]? formula[i + 2]?) := by
  induction formula generalizing previous i with
  | nil => rfl
  | cons e rest ih =>
    cases i with
    | zero => simp [settleFrom, getElem?_settleFrom_zero]
    | succ i => simpa [settleFrom] using ih (some (e.settle previous rest.head?)) i

/-- The member before place `i`, as it has been settled. -/
def leftNeighbour (formula : Formula) : (i : Nat) → Option Expr
  | 0 => none
  | i + 1 => (settleOperators formula)[i]?

/-- **The local rule.**  A member is settled between its left neighbour as it has been settled and
its right neighbour as it was. -/
theorem getElem?_settleOperators (formula : Formula) (i : Nat) :
    (settleOperators formula)[i]?
      = formula[i]?.map (.settle (leftNeighbour formula i) formula[i + 1]?) := by
  cases i with
  | zero => exact getElem?_settleFrom_zero none formula
  | succ i => exact getElem?_settleFrom_succ none formula i

/-! ## The law of the run -/

/-- Of the symbols that are no binary operators, those of the classes that block a run refuse an
operator after them. -/
theorem refusesAfter_of_not_isBinaryOperator {e : Expr} (h : e.isBinaryOperator = false) :
    refusesAfter (some e) = e.symbolClass?.any
      [SymbolClass.operator, .relation, .opening, .punctuation].contains := by
  cases e with
  | symbol kind glyph =>
    cases kind <;> first | rfl | cases h
  | _ => rfl

/-- Of two operators in a row the first one refuses the second exactly if it has not been refused
itself. -/
theorem refusesAfter_settle {e next : Expr} (h : e.isBinaryOperator) (hnext : next.isBinaryOperator)
    (previous : Option Expr) :
    refusesAfter (some (e.settle previous (some next))) = !refusesAfter previous := by
  have hclass {e : Expr} (h : e.isBinaryOperator) : e.symbolClass? = some .binary := by
    simpa [Expr.isBinaryOperator] using h
  have hadmits : admitsOperator previous (some next) = !refusesAfter previous := by
    simp [admitsOperator_eq, refusesBefore, hclass hnext, SymbolClass.refusesOperatorBefore]
  rw [settle_of_isBinaryOperator h, hadmits]
  cases refusesAfter previous <;>
    simp [refusesAfter, hclass h, symbolClass?_toOrdinary h, SymbolClass.refusesOperatorAfter]

/-- **The law of the run.**  What blocks a run refuses its first operator, and after each operator
of the run it is the other way round than before it. -/
theorem refusesAfter_leftNeighbour {formula : Formula} {i : Nat} {e : Expr}
    (he : formula[i]? = some e) (h : e.isBinaryOperator) :
    refusesAfter (leftNeighbour formula i) ↔
      if runIsBlocked formula i then operatorsBefore formula i % 2 = 0
      else operatorsBefore formula i % 2 = 1 := by
  induction i generalizing e with
  | zero => simp [leftNeighbour, refusesAfter, runIsBlocked, operatorsBefore]
  | succ i ih =>
    obtain ⟨before, hbefore⟩ : ∃ before, formula[i]? = some before := by
      have hlength := (List.getElem?_eq_some_iff.mp he).1
      exact ⟨_, List.getElem?_eq_getElem (by omega)⟩
    have hneighbour : leftNeighbour formula (i + 1)
        = some (before.settle (leftNeighbour formula i) (some e)) := by
      rw [leftNeighbour, getElem?_settleOperators, hbefore, he]
      rfl
    rw [hneighbour]
    cases hbinary : before.isBinaryOperator with
    | false =>
      -- the run begins here, after a member that stays as it is
      have hnone : operatorsBefore formula (i + 1) = 0 := by
        simp [operatorsBefore, hbefore, hbinary]
      simp [settle_of_not_isBinaryOperator hbinary, refusesAfter_of_not_isBinaryOperator hbinary,
        runIsBlocked, hnone, hbefore]
    | true =>
      -- the run goes on
      have hmore : operatorsBefore formula (i + 1) = operatorsBefore formula i + 1 := by
        simp [operatorsBefore, hbefore, hbinary]
      have hblocked : runIsBlocked formula (i + 1) = runIsBlocked formula i := by
        simp [runIsBlocked, hmore]
      have hrun := ih hbefore hbinary
      rw [refusesAfter_settle hbinary h, hblocked, hmore]
      cases hrefuses : refusesAfter (leftNeighbour formula i) <;>
        cases hb : runIsBlocked formula i <;> simp [hrefuses, hb] at hrun ⊢ <;> omega

/-- The left neighbour admits a binary operator whose place in its run is right, and the right one
unless it is a relation, a closing symbol or punctuation. -/
theorem admitsOperator_eq_keepsClass {formula : Formula} {i : Nat} {e : Expr}
    (he : formula[i]? = some e) (h : e.isBinaryOperator) :
    admitsOperator (leftNeighbour formula i) formula[i + 1]? = keepsClass formula i := by
  have hbefore : refusesBefore formula[i + 1]? = (formula[i + 1]?.bind Expr.symbolClass?).any
      [SymbolClass.relation, .closing, .punctuation].contains := by
    unfold refusesBefore
    congr 1
    funext kind
    cases kind <;> rfl
  have hafter := refusesAfter_leftNeighbour he h
  rw [admitsOperator_eq, hbefore, keepsClass]
  congr 1
  cases hrefuses : refusesAfter (leftNeighbour formula i) <;>
    cases hb : runIsBlocked formula i <;> simp [hrefuses, hb] at hafter ⊢ <;> omega

/-! ## The whole pass -/

/-- A formula that has been settled has nothing left to settle. -/
theorem settleFrom_settleFrom (previous : Option Expr) (formula : Formula) :
    settleFrom previous (settleFrom previous formula) = settleFrom previous formula := by
  induction formula generalizing previous with
  | nil => rfl
  | cons e rest ih =>
    have hnext : refusesBefore (settleFrom (some (e.settle previous rest.head?)) rest).head?
        = refusesBefore rest.head? := by
      cases rest with
      | nil => rfl
      | cons next others => exact refusesBefore_settle next _ _
    simp only [settleFrom, settle_settle hnext, ih]

/-- **The closed form of settling.**  A binary operator keeps its class exactly if its place in its
run is right and a second operand follows, and is an ordinary symbol of the same glyph otherwise;
all else stays as it is and where it is.  Settling once is enough. -/
theorem settleOperators_closed_form (formula : Formula) :
    settleOperators formula
        = formula.mapIdx (fun i e =>
            if e.isBinaryOperator && !keepsClass formula i then e.toOrdinary else e) ∧
      (settleOperators formula).length = formula.length ∧
      settleOperators (settleOperators formula) = settleOperators formula := by
  refine ⟨List.ext_getElem? fun i => ?_, length_settleFrom none formula,
    settleFrom_settleFrom none formula⟩
  rw [getElem?_settleOperators, List.getElem?_mapIdx]
  cases he : formula[i]? with
  | none => rfl
  | some e =>
    cases h : e.isBinaryOperator with
    | false => simp [settle_of_not_isBinaryOperator h, h]
    | true =>
      rw [Option.map_some, settle_of_isBinaryOperator h, admitsOperator_eq_keepsClass he h]
      cases keepsClass formula i <;> simp [h]

/-- In `a+−+b` the operators keep and lose their class in turn. -/
example : settleOperators [.identifier "a", .symbol .binary "+", .symbol .binary "−",
      .symbol .binary "+", .identifier "b"]
    = [.identifier "a", .symbol .binary "+", .symbol .ordinary "−", .symbol .binary "+",
      .identifier "b"] := rfl

end OfficeMath
