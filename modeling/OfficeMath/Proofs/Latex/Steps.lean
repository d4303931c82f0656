import OfficeMath.Latex.Grammar

/-!
# Steps of the reader

Every rule of the grammar is composed of a few elementary steps: looking ahead, taking
characters, making a note, failing.  This file says what each of them does to a scan, how a
sequence of two steps comes apart, and what can be said of the value that a step returns.

* `bind_eq_ok` — a sequence succeeds exactly if both of its steps do;
* `Returns` — every value that a step returns satisfies a condition.  It is proved along the
  structure of a rule by `Returns.pure`, `Returns.bind` and `Returns.ite`.
-/

namespace OfficeMath

/-- A result is a success with the value that it has as an option. -/
theorem eq_ok_of_toOption {ε α : Type} {r : Except ε α} {a : α} (h : r.toOption = some a) :
    r = .ok a := by
  cases r with
  | ok b => exact congrArg Except.ok (Option.some.inj h)
  | error e => cases h

namespace Reading

variable {α β : Type}

@[simp] theorem run_pure (a : α) (s : Scan) : (pure a : Reading α) s = .ok a s := rfl

@[simp] theorem run_rest (s : Scan) : rest s = .ok s.rest s := rfl

@[simp] theorem run_offset (s : Scan) : offset s = .ok s.offset s := rfl

@[simp] theorem run_advance (count : Nat) (s : Scan) :
    advance count s = .ok () (s.advance count) := rfl

@[simp] theorem run_note (n : Note) (s : Scan) :
    note n s = .ok () { s with notes := n :: s.notes } := rfl

@[simp] theorem run_unclosed (closer : Closer) (s : Scan) :
    (unclosed closer : Reading α) s = .error ⟨s.offset, closer⟩ s := rfl

/-- The second of two steps goes on where the first one ended. -/
theorem run_bind_ok {m : Reading α} {f : α → Reading β} {s s' : Scan} {a : α}
    (h : m s = .ok a s') : (m >>= f) s = f a s' := by
  show EStateM.bind m f s = f a s'
  rw [EStateM.bind, h]

/-- If the first of two steps fails, so do both together. -/
theorem run_bind_error {m : Reading α} {f : α → Reading β} {s s' : Scan} {e : Unclosed}
    (h : m s = .error e s') : (m >>= f) s = .error e s' := by
  show EStateM.bind m f s = .error e s'
  rw [EStateM.bind, h]

/-- Two steps in a row succeed exactly if the first one does and then the second one. -/
theorem bind_eq_ok {m : Reading α} {f : α → Reading β} {s s'' : Scan} {b : β} :
    (m >>= f) s = .ok b s'' ↔ ∃ a s', m s = .ok a s' ∧ f a s' = .ok b s'' := by
  cases h : m s with
  | ok a s' =>
    rw [run_bind_ok h]
    constructor
    · intro hb
      exact ⟨a, s', rfl, hb⟩
    · intro hboth
      obtain ⟨first, middle, heq, hb⟩ := hboth
      cases heq
      exact hb
  | error e s' => simp [run_bind_error h]

/-- A step with a value succeeds with it. -/
theorem exists_ok_of_run {m : Reading α} {s : Scan} {a : α} (h : m.run' s = some a) :
    ∃ t, m s = .ok a t := by
  unfold EStateM.run' EStateM.run at h
  cases hrun : m s with
  | ok a' t =>
    rw [hrun] at h
    cases h
    exact ⟨t, rfl⟩
  | error e t =>
    rw [hrun] at h
    cases h

/-- A step with a value succeeds. -/
theorem exists_ok_of_isSome {m : Reading α} {s : Scan} (h : (m.run' s).isSome) :
    ∃ a t, m s = .ok a t := by
  obtain ⟨a, ha⟩ := Option.isSome_iff_exists.mp h
  exact ⟨a, exists_ok_of_run ha⟩

/-- Every value that a step returns satisfies a condition. -/
def Returns (m : Reading α) (post : α → Prop) : Prop :=
  ∀ s a s', m s = .ok a s' → post a

namespace Returns

variable {m : Reading α} {f : α → Reading β} {post : α → Prop} {post' : β → Prop}

/-- Nothing is said of the value of a step. -/
theorem any (m : Reading α) : m.Returns fun _ => True := fun _ _ _ _ => trivial

/-- A value that is returned at once. -/
theorem pure {a : α} (h : post a) : (Pure.pure a : Reading α).Returns post := by
  intro s b s' hrun
  cases hrun
  exact h

/-- A step that only fails returns nothing. -/
theorem unclosed (closer : Closer) : (Reading.unclosed closer : Reading α).Returns post := by
  intro s b s' hrun
  cases hrun

/-- What the first step is known to return may be used for the second. -/
theorem bind (first : m.Returns post) (second : ∀ a, post a → (f a).Returns post') :
    (m >>= f).Returns post' := by
  intro s b s'' hrun
  obtain ⟨a, s', ha, hb⟩ := bind_eq_ok.mp hrun
  exact second a (first s a s' ha) s' b s'' hb

/-- A second step for which it does not matter what the first one returns. -/
theorem seq (second : ∀ a, (f a).Returns post') : (m >>= f).Returns post' :=
  bind (any m) fun a _ => second a

/-- A choice between two steps. -/
theorem ite {c : Prop} [Decidable c] {m m' : Reading α} (yes : c → m.Returns post)
    (no : ¬ c → m'.Returns post) : (if c then m else m').Returns post := by
  by_cases h : c
  · rw [if_pos h]
    exact yes h
  · rw [if_neg h]
    exact no h

/-- A choice between two first steps with the same second step. -/
theorem iteBind {c : Prop} [Decidable c] {m m' : Reading α} (second : ∀ a, (f a).Returns post') :
    (if c then m >>= f else m' >>= f).Returns post' :=
  ite (fun _ => seq second) fun _ => seq second

/-- A weaker condition. -/
theorem mono {post₁ post₂ : α → Prop} (h : m.Returns post₁) (imp : ∀ a, post₁ a → post₂ a) :
    m.Returns post₂ :=
  fun s a s' hrun => imp a (h s a s' hrun)

end Returns

end Reading

end OfficeMath
