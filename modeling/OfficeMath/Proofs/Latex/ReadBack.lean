import OfficeMath.Proofs.Latex.Arrays
import OfficeMath.Proofs.Latex.Regions

/-!
# Reading undoes spelling

A canonical expression is read back from its spelling, in any list and at any depth, without a
note: `parse_canonicalText`.  The proof is by induction over the expression, with one lemma for each
construction.
-/

namespace OfficeMath

open Nested (unbounded)

/-- A canonical expression is read back, as a base too if it carries no scripts. -/
theorem readsBack_of_canonical {e : Expr} (h : e.Canonical) :
    e.ReadsBack ∧ (¬ e.IsScripted → e.ReadsAsBase) := by
  have unscripted {e : Expr} (h : e.ReadsAsBase) :
      e.ReadsBack ∧ (¬ e.IsScripted → e.ReadsAsBase) := ⟨Reading.readsBack_of_base h, fun _ => h⟩
  have scripted {e : Expr} (h : e.ReadsBack) (hscripted : e.IsScripted) :
      e.ReadsBack ∧ (¬ e.IsScripted → e.ReadsAsBase) := ⟨h, fun hno => absurd hscripted hno⟩
  induction e with
  | text | space | operatorName | scaled => cases h
  | number =>
    cases h with
    | number h => exact unscripted (readsAsBase_number h)
  | identifier =>
    cases h with
    | identifier h => exact unscripted (readsAsBase_identifier h)
  | symbol =>
    cases h with
    | symbol h => exact unscripted (readsAsBase_symbol h)
  | group members ih =>
    cases h with
    | group h => exact unscripted (readsAsBase_group fun e he => (ih e he (h e he)).1)
  | sqrt base ih =>
    cases h with
    | sqrt h => exact unscripted (readsAsBase_sqrt (ih h).1)
  | root index base ihIndex ihBase =>
    cases h with
    | root hindex hbase => exact unscripted (readsAsBase_root (ihIndex hindex).1 (ihBase hbase).1)
  | phantom inner ih =>
    cases h with
    | phantom h => exact unscripted (readsAsBase_phantom (ih h).1)
  | boxed inner ih =>
    cases h with
    | boxed h => exact unscripted (readsAsBase_boxed (ih h).1)
  | cancel stroke inner ih =>
    cases h with
    | cancel h => exact unscripted (readsAsBase_cancel stroke (ih h).1)
  | sub base lower ihBase ihLower =>
    cases h with
    | sub hscripted hbase hlower =>
      exact scripted (readsBack_sub ((ihBase hbase).2 hscripted) (ihLower hlower).1) trivial
  | super base upper ihBase ihUpper =>
    cases h with
    | super hscripted hbase hupper =>
      exact scripted (readsBack_super ((ihBase hbase).2 hscripted) (ihUpper hupper).1) trivial
  | subSup base lower upper ihBase ihLower ihUpper =>
    cases h with
    | subSup hscripted hbase hlower hupper =>
      exact scripted (readsBack_subSup ((ihBase hbase).2 hscripted) (ihLower hlower).1
        (ihUpper hupper).1) trivial
  | fraction style numerator denominator ihNumerator ihDenominator =>
    cases h with
    | fraction hstyle hnumerator hdenominator =>
      exact unscripted (readsAsBase_fraction hstyle (ihNumerator hnumerator).1
        (ihDenominator hdenominator).1)
  | «over» movable base above ihBase ihAbove =>
    cases h with
    | «over» hbase habove => exact unscripted (readsAsBase_over (ihBase hbase).1 (ihAbove habove).1)
  | under movable base below ihBase ihBelow =>
    cases h with
    | under hbase hbelow => exact unscripted (readsAsBase_under (ihBase hbase).1 (ihBelow hbelow).1)
  | underOver movable base below above ihBase ihBelow ihAbove =>
    cases h with
    | underOver hscripted hbase hbelow habove =>
      exact scripted (readsBack_underOver ((ihBase hbase).2 hscripted) (ihBelow hbelow).1
        (ihAbove habove).1) trivial
  | delimited opening closing content ih =>
    cases h with
    | delimited hopening hclosing hseparators h =>
      exact unscripted (readsAsBase_delimited hopening hclosing hseparators
        fun e he => (ih e he (h e he)).1)
  | array alignments rows ih =>
    cases h with
    | array hrows hcolumns h =>
      exact unscripted (readsAsBase_array hrows hcolumns fun row hrow cell hcell e he =>
        (ih row hrow cell hcell e he (h row hrow cell hcell e he)).1)
  | styled style members ih =>
    cases h with
    | styled hstyle h =>
      exact unscripted (readsAsBase_styled hstyle fun e he => (ih e he (h e he)).1)

/-- **Parsing undoes spelling.**  A formula of canonical expressions, of any size and nesting, is
read back from its canonical text, with its binary operators settled and without a note. -/
theorem parse_canonicalText {formula : Formula} (h : ∀ e ∈ formula, e.Canonical) :
    parse (canonicalText formula) = .ok (settleOperators formula) ∧
      (read (canonicalText formula)).notes = [] := by
  have hmembers : ∀ e ∈ formula, e.ReadsBack := fun e he => (readsBack_of_canonical (h e he)).1
  have htext : (Scan.start (canonicalText formula)).rest = sourceOf formula ++ [] ++ [] := by
    simp [Scan.start, canonicalText]
  have hsequence := Reading.takes_sequence none (fun _ => rfl) hmembers _ htext
  have hread := read_of_sequence hsequence
  rw [parse, hread]
  exact ⟨rfl, rfl⟩

/-- A root over a matrix whose last row is a single empty cell, after a sign that is no operator
where it stands. -/
theorem parse_canonicalText_root_of_matrix :
    let matrix : Expr := .array [.center] [[[.identifier "x"]], [[]]]
    let formula : Formula := [.symbol .binary "−", .root (.number "3") matrix]
    canonicalText formula
        = "- \\sqrt[3 ]\x7b\\begin\x7bmatrix\x7dx \\\\ \\\\ \\end\x7bmatrix\x7d \x7d " ∧
      (∀ e ∈ formula, e.Canonical) ∧
      parse (canonicalText formula)
        = .ok [.symbol .ordinary "−", .root (.number "3") matrix] := by
  intro matrix formula
  have hx : (Expr.identifier "x").Canonical := .identifier (c := 'x') (by decide)
  have hlongest : IsLongest 1 [[[.identifier "x"]], [[]]] := .inr ⟨⟨[[]], by simp, rfl⟩, by simp⟩
  have hmatrix : matrix.Canonical := .array (by simp) hlongest (by simpa using hx)
  have hnumber : (Expr.number "3").Canonical := .number (.whole ⟨by decide, by decide⟩)
  have hminus : (Expr.symbol .binary "−").Canonical := .symbol (c := '-') (by decide)
  have hall : ∀ e ∈ formula, e.Canonical := by simpa [formula] using ⟨hminus, .root hnumber hmatrix⟩
  exact ⟨by decide, hall, (parse_canonicalText hall).1⟩

/-- Rows that are only joined do not come back: a trailing double backslash opens no row, and so a
last row of a single empty cell is lost. -/
theorem parse_joinedRows_loses_row :
    let array : Expr := .array [.center] [[[.number "1"]], [[]]]
    let text := String.ofList (control "begin" ++ ("{matrix}".toList ++
      (joinedRows [[[.number "1"]], [[]]] ++ (control "end" ++ "{matrix}".toList))) ++ [' '])
    text = "\\begin\x7bmatrix\x7d1 \\\\ \\end\x7bmatrix\x7d " ∧ array.Canonical ∧
      parse text = .ok [.array [.center] [[[.number "1"]]]] ∧ parse text ≠ .ok [array] := by
  intro array text
  have hone : (Expr.number "1").Canonical := .number (.whole ⟨by decide, by decide⟩)
  have hlongest : IsLongest 1 [[[.number "1"]], [[]]] := .inr ⟨⟨[[]], by simp, rfl⟩, by simp⟩
  have hread : parse text = .ok [.array [.center] [[[.number "1"]]]] :=
    eq_ok_of_toOption (by decide +kernel)
  refine ⟨by decide, .array (by simp) hlongest (by simpa using hone), hread, ?_⟩
  rw [hread]
  simp [array]

end OfficeMath
