import OfficeMath.Proofs.Latex.Depth

/-!
# Success from below

At depth zero `Nested.ofDepth` reads nothing and reports a success.  No formula ever gets there,
but a proof that goes by induction on the depth does, and a statement about what a success has
done to the scan is false of it.  The same rules can be built on any other bottom
(`Nested.tower`), and high enough in each such tower every formula is read as it is read by
`Nested.ofDepth` (`Nested.agree_tower`, `sequence_eq_tower`).  So what is to be said of every
formula is proved by induction on the height, with a bottom of which it holds trivially.

* `Nested.approach` stands on nested parts that fail at once, and serves for what is said of every
  success (`exists_approach`);
* `Nested.beyond` are nested parts that fail behind the end of the formula, where no formula does,
  and serve for what is said of failures too.
-/

namespace OfficeMath

namespace Nested

/-- The rules, with nested parts read up to the given depth and by `bottom` from there on. -/
def tower (bottom : Nested) : Nat → Nested
  | 0 => bottom
  | depth + 1 => (tower bottom depth).rules

/-- Reading goes forward in a tower if it does so at the bottom. -/
theorem forward_tower {bottom : Nested} (h : bottom.Forward) (depth : Nat) :
    (bottom.tower depth).Forward := by
  induction depth with
  | zero => exact h
  | succ depth ih => exact ih.rules

/-- What stands at the bottom does not matter where the bottom is not reached. -/
theorem agree_tower (bottom : Nested) {depth m n : Nat} (hm : 2 * m ≤ depth + 1)
    (hn : 2 * n ≤ depth) : (ofDepth depth).Agree (bottom.tower depth) m n := by
  induction depth generalizing m n with
  | zero => constructor <;> intros <;> omega
  | succ depth ih =>
    have small (s : Scan) (hs : s.rest.length < m) :
        (ofDepth depth).Agree (bottom.tower depth) s.rest.length s.rest.length :=
      ih (by omega) (by omega)
    have large (s : Scan) (hs : s.rest.length < n) :
        (ofDepth depth).Agree (bottom.tower depth) (s.rest.length + 1) s.rest.length :=
      ih (by omega) (by omega)
    exact Agree.rules (forward_ofDepth depth) small large

/-- Nested parts that cannot be read. -/
def failing : Nested where
  base := Reading.unclosed .brace
  limits _ := Reading.unclosed .brace
  sequence _ := Reading.unclosed .brace
  region := Reading.unclosed .brace
  rows _ _ := Reading.unclosed .brace

/-- The rules, with nested parts read up to the given depth and failing there. -/
def approach : Nat → Nested
  | 0 => failing
  | depth + 1 => (approach depth).rules

/-- Approaching a nesting from below is a tower over parts that fail. -/
theorem approach_eq_tower (depth : Nat) : approach depth = failing.tower depth := by
  induction depth with
  | zero => rfl
  | succ depth ih => rw [approach, tower, ih]

/-- Reading goes forward, to any depth. -/
theorem forward_approach (depth : Nat) : (approach depth).Forward := by
  have hbottom : failing.Forward := {
    base := .unclosed _
    limits := fun place => .unclosed _
    sequence := fun closer => .unclosed _
    region := .unclosed _
    rows := fun row cell => .unclosed _
    found := by
      intro s t b h
      cases h }
  rw [approach_eq_tower]
  exact forward_tower hbottom depth

end Nested

/-- A step that fails behind the end of the formula. -/
def Reading.beyond {α : Type} : Reading α := fun s => .error ⟨s.size + 1, .brace⟩ s

namespace Nested

/-- Nested parts that fail behind the end of the formula. -/
def beyond : Nested where
  base := Reading.beyond
  limits _ := Reading.beyond
  sequence _ := Reading.beyond
  region := Reading.beyond
  rows _ _ := Reading.beyond

/-- Reading goes forward, to any depth. -/
theorem forward_beyond (depth : Nat) : (beyond.tower depth).Forward := by
  have hbottom : beyond.Forward := {
    base := fun s => .refl s
    limits := fun place s => .refl s
    sequence := fun closer s => .refl s
    region := fun s => .refl s
    rows := fun row cell s => .refl s
    found := nofun }
  exact forward_tower hbottom depth

end Nested

/-- **A sequence is read in every tower** that is high enough for what is ahead. -/
theorem sequence_eq_tower (bottom : Nested) (closer : Option Closer) {s : Scan} {depth : Nat}
    (h : 2 * s.rest.length + 2 ≤ depth) :
    Reading.alone (·.sequence closer) s = (bottom.tower depth).sequence closer s := by
  have hdepth : Nested.unbounded.Agree (Nested.ofDepth depth) (s.rest.length + 1)
      (s.rest.length + 1) := Nested.agree_unbounded (by omega) (by omega)
  have htower : (Nested.ofDepth depth).Agree (bottom.tower depth) (s.rest.length + 1)
      (s.rest.length + 1) := Nested.agree_tower bottom (by omega) (by omega)
  calc Reading.alone (·.sequence closer) s
      = Nested.unbounded.sequence closer s := by rw [Nested.alone_sequence]
    _ = (Nested.ofDepth depth).sequence closer s := hdepth.sequence closer s (Nat.lt_succ_self _)
    _ = (bottom.tower depth).sequence closer s := htower.sequence closer s (Nat.lt_succ_self _)

/-- **A formula that can be read is read from below**, as a sequence up to its end. -/
theorem exists_approach {text : String} {formula : Formula} (h : parse text = .ok formula) :
    ∃ depth members finish,
      (Nested.approach depth).sequence none (Scan.start text) = .ok members finish ∧
        formula = settleOperators members ∧ (read text).notes = finish.notes.reverse := by
  let depth := 2 * text.toList.length + 2
  have hread : Reading.alone (·.sequence none) (Scan.start text)
      = (Nested.approach depth).sequence none (Scan.start text) := by
    rw [Nested.approach_eq_tower]
    exact sequence_eq_tower Nested.failing none (Nat.le_refl _)
  cases hrun : (Nested.approach depth).sequence none (Scan.start text) with
  | error e t =>
    rw [parse, read, hread, hrun] at h
    cases h
  | ok members t =>
    rw [parse, read, hread, hrun] at h
    cases h
    exact ⟨depth, members, t, hrun, rfl, by rw [read, hread, hrun]⟩

end OfficeMath
