import OfficeMath.Formula.Basic

/-!
# Equality of formulas

Whether two expressions are equal can be decided: `Expr.same` compares two of them part by part,
and `Expr.same_iff` says that it finds exactly the equal ones.  So formulas have decidable
equality, and an evaluation of the reader at a concrete text can be checked.
-/

namespace OfficeMath

mutual

/-- Whether two expressions agree in all parts. -/
def Expr.same : Expr → Expr → Bool
  | .number a, .number b => a = b
  | .identifier a, .identifier b => a = b
  | .symbol k a, .symbol l b => k = l && a = b
  | .text k a, .text l b => k = l && a = b
  | .space a, .space b => decide (a = b)
  | .operatorName a, .operatorName b => a = b
  | .group a, .group b => sameAll a b
  | .sqrt a, .sqrt b => a.same b
  | .root a c, .root b d => a.same b && c.same d
  | .phantom a, .phantom b => a.same b
  | .boxed a, .boxed b => a.same b
  | .cancel k a, .cancel l b => k = l && a.same b
  | .scaled k a, .scaled l b => decide (k = l) && a.same b
  | .sub a c, .sub b d => a.same b && c.same d
  | .super a c, .super b d => a.same b && c.same d
  | .subSup a c e, .subSup b d f => a.same b && c.same d && e.same f
  | .fraction k a c, .fraction l b d => k = l && a.same b && c.same d
  | .over k a c, .over l b d => k = l && a.same b && c.same d
  | .under k a c, .under l b d => k = l && a.same b && c.same d
  | .underOver k a c e, .underOver l b d f => k = l && a.same b && c.same d && e.same f
  | .delimited k m a, .delimited l n b => k = l && m = n && sameItems a b
  | .array k a, .array l b => k = l && sameRows a b
  | .styled k a, .styled l b => k = l && sameAll a b
  | _, _ => false

/-- Whether two lists of expressions agree member by member. -/
def sameAll : List Expr → List Expr → Bool
  | [], [] => true
  | a :: as, b :: bs => a.same b && sameAll as bs
  | _, _ => false

/-- Whether two delimited regions agree item by item. -/
def sameItems : List Item → List Item → Bool
  | [], [] => true
  | .separator a :: as, .separator b :: bs => a = b && sameItems as bs
  | .expr a :: as, .expr b :: bs => a.same b && sameItems as bs
  | _, _ => false

/-- Whether two arrays agree row by row. -/
def sameRows : List (List (List Expr)) → List (List (List Expr)) → Bool
  | [], [] => true
  | a :: as, b :: bs => sameCells a b && sameRows as bs
  | _, _ => false

/-- Whether two rows agree cell by cell. -/
def sameCells : List (List Expr) → List (List Expr) → Bool
  | [], [] => true
  | a :: as, b :: bs => sameAll a b && sameCells as bs
  | _, _ => false

end

mutual

/-- Every expression compares the same as itself. -/
private theorem Expr.same_self : (e : Expr) → e.same e = true
  | .number _ | .identifier _ | .symbol _ _ | .text _ _ | .space _ | .operatorName _ => by
    simp [Expr.same]
  | .group l | .styled _ l => by simp [Expr.same, sameAll_self l]
  | .sqrt e | .phantom e | .boxed e | .cancel _ e | .scaled _ e => by
    simp [Expr.same, e.same_self]
  | .root a b | .sub a b | .super a b | .fraction _ a b | .over _ a b | .under _ a b => by
    simp [Expr.same, a.same_self, b.same_self]
  | .subSup a b c | .underOver _ a b c => by
    simp [Expr.same, a.same_self, b.same_self, c.same_self]
  | .delimited _ _ items => by simp [Expr.same, sameItems_self items]
  | .array _ rows => by simp [Expr.same, sameRows_self rows]

private theorem sameAll_self : (l : List Expr) → sameAll l l = true
  | [] => by simp [sameAll]
  | e :: l => by simp [sameAll, e.same_self, sameAll_self l]

private theorem sameItems_self : (l : List Item) → sameItems l l = true
  | [] => by simp [sameItems]
  | .separator _ :: l => by simp [sameItems, sameItems_self l]
  | .expr e :: l => by simp [sameItems, e.same_self, sameItems_self l]

private theorem sameRows_self : (l : List (List (List Expr))) → sameRows l l = true
  | [] => by simp [sameRows]
  | row :: l => by simp [sameRows, sameCells_self row, sameRows_self l]

private theorem sameCells_self : (l : List (List Expr)) → sameCells l l = true
  | [] => by simp [sameCells]
  | cell :: l => by simp [sameCells, sameAll_self cell, sameCells_self l]

end

/-- Expressions that compare the same are equal, and so are lists, items and rows of them. -/
private theorem eq_of_same :
    (∀ a b : Expr, a.same b = true → a = b) ∧
    (∀ a b : List (List (List Expr)), sameRows a b = true → a = b) ∧
    (∀ a b : List (List Expr), sameCells a b = true → a = b) ∧
    (∀ a b : List Expr, sameAll a b = true → a = b) ∧
    (∀ a b : List Item, sameItems a b = true → a = b) := by
  apply Expr.same.mutual_induct
  -- two different constructors
  case case24 => intros; simp_all only [Expr.same, reduceCtorEq]
  all_goals intros
  all_goals first
    | simp_all only [sameRows, sameCells, sameAll, sameItems, Bool.and_eq_true, decide_eq_true_eq,
        reduceCtorEq, forall_const]
    | rename_i h
      rw [Expr.same] at h
      simp_all only [Bool.and_eq_true, decide_eq_true_eq, forall_const]

/-- Two expressions agree in all parts if and only if they are equal. -/
theorem Expr.same_iff {a b : Expr} : a.same b = true ↔ a = b :=
  ⟨eq_of_same.1 a b, fun h => h ▸ a.same_self⟩

instance : DecidableEq Expr := fun _ _ => decidable_of_iff _ Expr.same_iff

end OfficeMath
