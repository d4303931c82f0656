import OfficeMath.Proofs.Latex.Steps
import OfficeMath.Latex.EnvironmentText

/-!
# Reading two formulas side by side

Two steps are taken at two scans, and the question is whether they come to the same thing
(`Reading.Alike`): either both succeed, with the same value, and what they leave ahead is related
again; or both fail, over the same kind of group.  Offsets and notes are not compared.  As for a
single scan, there is a rule for each construct, so that two readings are compared by going
through one of them.

The relation between what is ahead is left open.  With equality it says that a step sees nothing
but the text ahead (`Reading.alike_skipEnvironment`).
-/

namespace OfficeMath

/-- What is ahead in one formula and in another one. -/
abbrev TextRelation := List Char → List Char → Prop

/-- Two results that differ in offsets and notes alone. -/
def AgreeingResults {α : Type} (R : TextRelation) :
    EStateM.Result Unclosed Scan α → EStateM.Result Unclosed Scan α → Prop
  | .ok a t, .ok b u => a = b ∧ R t.rest u.rest
  | .error e _, .error f _ => e.closer = f.closer
  | .ok _ _, .error _ _ => False
  | .error _ _, .ok _ _ => False

namespace Reading

/-- One step at one scan comes to the same thing as another step at another scan. -/
def Alike {α : Type} (R : TextRelation) (s u : Scan) (m m' : Reading α) : Prop :=
  AgreeingResults R (m s) (m' u)

namespace Alike

variable {α β : Type} {R : TextRelation} {s u : Scan} {m m' : Reading α} {f f' : α → Reading β}

/-- If both succeed, they do so with the same value. -/
theorem ok {a b : α} {t v : Scan} (h : Alike R s u m m') (hm : m s = .ok a t)
    (hm' : m' u = .ok b v) : a = b ∧ R t.rest v.rest := by
  rw [Alike, hm, hm'] at h
  exact h

theorem pure (a : α) (h : R s.rest u.rest) :
    Alike R s u (Pure.pure a : Reading α) (Pure.pure a) := ⟨rfl, h⟩

theorem unclosed (closer : Closer) :
    Alike R s u (Reading.unclosed closer : Reading α) (Reading.unclosed closer) := rfl

/-- Different notes may be made. -/
theorem note (n n' : Note) (h : R s.rest u.rest) :
    Alike R s u (Reading.note n) (Reading.note n') := ⟨rfl, h⟩

/-- Two steps in a row. -/
theorem bind (first : Alike R s u m m')
    (second : ∀ a t v, m s = .ok a t → m' u = .ok a v → R t.rest v.rest →
      Alike R t v (f a) (f' a)) : Alike R s u (m >>= f) (m' >>= f') := by
  unfold Alike
  cases hm : m s with
  | ok a t =>
    cases hm' : m' u with
    | ok b v =>
      obtain ⟨rfl, hrest⟩ := first.ok hm hm'
      rw [run_bind_ok hm, run_bind_ok hm']
      exact second a t v hm hm' hrest
    | error e v =>
      rw [Alike, hm, hm'] at first
      cases first
  | error e t =>
    cases hm' : m' u with
    | ok b v =>
      rw [Alike, hm, hm'] at first
      cases first
    | error e' v =>
      rw [Alike, hm, hm'] at first
      rw [run_bind_error hm, run_bind_error hm']
      exact first

/-- A value that is only changed. -/
theorem map {g : α → β} (h : Alike R s u m m') :
    Alike R s u (m >>= fun a => Pure.pure (g a)) (m' >>= fun a => Pure.pure (g a)) :=
  bind h fun a _ _ _ _ hrest => pure (g a) hrest

/-- Looking ahead. -/
theorem rest {f f' : List Char → Reading β} (h : Alike R s u (f s.rest) (f' u.rest)) :
    Alike R s u (Reading.rest >>= f) (Reading.rest >>= f') := h

/-- Looking at the offsets. -/
theorem offset {f f' : Nat → Reading β} (h : Alike R s u (f s.offset) (f' u.offset)) :
    Alike R s u (Reading.offset >>= f) (Reading.offset >>= f') := h

/-- Taking characters and going on. -/
theorem take {f f' : Unit → Reading β} {count count' : Nat}
    (h : Alike R (s.advance count) (u.advance count') (f ()) (f' ())) :
    Alike R s u (Reading.advance count >>= f) (Reading.advance count' >>= f') := h

/-- Making notes and going on. -/
theorem noted {f f' : Unit → Reading β} (n n' : Note)
    (h : Alike R { s with notes := n :: s.notes } { u with notes := n' :: u.notes } (f ())
      (f' ())) :
    Alike R s u (Reading.note n >>= f) (Reading.note n' >>= f') := h

/-- A choice that falls the same way on both sides. -/
theorem ite {c c' : Prop} [Decidable c] [Decidable c'] {n n' : Reading α} (hc : c ↔ c')
    (yes : c → c' → Alike R s u m m') (no : ¬ c → ¬ c' → Alike R s u n n') :
    Alike R s u (if c then m else n) (if c' then m' else n') := by
  by_cases h : c
  · rw [if_pos h, if_pos (hc.mp h)]
    exact yes h (hc.mp h)
  · have h' : ¬ c' := fun h' => h (hc.mpr h')
    rw [if_neg h, if_neg h']
    exact no h h'

end Alike

/-! ## Steps that see nothing but the text ahead -/

section
variable {s u : Scan}

/-- Where the same text is ahead, the same text is behind any number of its characters. -/
theorem rest_advance_eq (h : s.rest = u.rest) (count : Nat) :
    (s.advance count).rest = (u.advance count).rest := by
  rw [Scan.advance, Scan.advance, h]

/-- A text up to a mark is the same at both places. -/
theorem alike_through (mark : Char) (h : s.rest = u.rest) :
    Alike Eq s u (through? mark) (through? mark) := by
  refine .rest ?_
  rw [← h]
  split
  · exact .take (.pure _ (rest_advance_eq h _))
  · refine .rest (.take (.pure _ ?_))
    rw [← h]
    exact rest_advance_eq h _

/-- So is the name of an environment. -/
theorem alike_environmentName (h : s.rest = u.rest) :
    Alike Eq s u environmentName? environmentName? := by
  have hlayout : Alike Eq s u skipLayout skipLayout := by
    refine .rest ?_
    rw [← h]
    exact ⟨rfl, rest_advance_eq h _⟩
  refine .bind hlayout fun _ t v _ _ hrest => .rest ?_
  rw [← hrest]
  split
  · refine .take (.bind (alike_through _ (rest_advance_eq hrest 1)) fun found _ _ _ _ hend => ?_)
    cases found with
    | some name => exact .pure _ hend
    | none => exact .unclosed _
  · exact .pure _ hrest

/-- So is the way through a body, by induction on the bound. -/
theorem alike_skipEnvironmentFrom (name : String) (bound depth : Nat) (h : s.rest = u.rest) :
    Alike Eq s u (skipEnvironmentFrom name bound depth) (skipEnvironmentFrom name bound depth) := by
  induction bound generalizing depth s u with
  | zero => exact .note _ _ h
  | succ bound ih =>
    refine .rest ?_
    rw [← h]
    cases hrest : s.rest with
    | nil => exact .note _ _ h
    | cons c after =>
      have hafter := rest_advance_eq h 1
      refine .take (.ite .rfl (fun _ _ => ?_) fun _ _ => ih depth hafter)
      have hnamed := rest_advance_eq hafter (commandName after).length
      refine .take ?_
      split
      · refine .bind (alike_environmentName hnamed) fun found _ _ _ _ hend => ?_
        split
        · exact ih _ hend
        · exact ih _ hend
      split
      · refine .bind (alike_environmentName hnamed) fun found _ _ _ _ hend => ?_
        split
        · cases depth with
          | zero => exact .pure _ hend
          | succ depth => exact ih _ hend
        · exact ih _ hend
      · exact ih depth hnamed

/-- The body of an environment is passed over in the same way wherever it stands. -/
theorem alike_skipEnvironment (name : String) (h : s.rest = u.rest) :
    Alike Eq s u (skipEnvironment name) (skipEnvironment name) := by
  refine .rest ?_
  rw [← h]
  exact alike_skipEnvironmentFrom name _ 0 h

end

end Reading

end OfficeMath
