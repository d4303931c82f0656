import OfficeMath.Proofs.Latex.Depth

/-!
# Taking a given text

`Reading.Takes` says of a step what it does where a given text is ahead: it succeeds, takes exactly
this text, returns a given value and makes no note.  What follows the text is part of the
statement, since the reader looks ahead.

Such statements are put together along the text: `Takes.bind` for two steps that take one part
each, and on top of it one lemma for each rule of the grammar.  The rules are those without a
bound, so that no lemma mentions a depth.
-/

namespace OfficeMath

namespace Reading

/-- A step takes exactly `text` where `tail` follows it, and returns `a`. -/
def Takes {α : Type} (m : Reading α) (text : List Char) (a : α) (tail : List Char) : Prop :=
  ∀ s : Scan, s.rest = text ++ tail → m s = .ok a (s.advance text.length)

namespace Takes

variable {α β : Type} {m : Reading α} {text tail : List Char} {a : α} {b : β}

/-- After a text has been taken, what follows it is ahead. -/
theorem rest_advance {s : Scan} (h : s.rest = text ++ tail) :
    (s.advance text.length).rest = tail := by
  simp [Scan.advance, h]

theorem pure (a : α) (tail : List Char) : (Pure.pure a : Reading α).Takes [] a tail := by
  intro s hs
  simp

/-- Two steps that take one part each. -/
theorem bind {f : α → Reading β} {front back : List Char} (first : m.Takes front a (back ++ tail))
    (second : (f a).Takes back b tail) : (m >>= f).Takes (front ++ back) b tail := by
  intro s hs
  have hfront : s.rest = front ++ (back ++ tail) := by rw [hs, List.append_assoc]
  have hrest : (s.advance front.length).rest = back ++ tail := rest_advance hfront
  rw [run_bind_ok (first s hfront), second _ hrest, Scan.advance_add, List.length_append]

/-- A first step that takes nothing. -/
theorem seq {f : α → Reading β} (first : m.Takes [] a (text ++ tail))
    (second : (f a).Takes text b tail) : (m >>= f).Takes text b tail :=
  bind first second

/-- A second step that takes nothing. -/
theorem last {f : α → Reading β} (first : m.Takes text a tail) (second : (f a).Takes [] b tail) :
    (m >>= f).Takes text b tail := by
  have htext : (m >>= f).Takes (text ++ []) b tail := bind first second
  rwa [List.append_nil] at htext

/-- A value that is only changed. -/
theorem map {f : α → β} (h : m.Takes text a tail) :
    (m >>= fun a => Pure.pure (f a)).Takes text (f a) tail :=
  last h (pure (f a) tail)

/-- Looking ahead. -/
theorem rest {f : List Char → Reading β} (h : (f (text ++ tail)).Takes text b tail) :
    (Reading.rest >>= f).Takes text b tail := by
  intro s hs
  rw [run_bind_ok (run_rest s), hs]
  exact h s hs

/-- Looking at the offset. -/
theorem offset {f : Nat → Reading β} (h : ∀ start, (f start).Takes text b tail) :
    (Reading.offset >>= f).Takes text b tail := by
  intro s hs
  rw [run_bind_ok (run_offset s)]
  exact h _ s hs

/-- Taking the characters of a text. -/
theorem take {count : Nat} (hcount : count = text.length) (tail : List Char) :
    (Reading.advance count).Takes text () tail := by
  intro s hs
  rw [run_advance, hcount]

/-- Taking the characters of a text at first. -/
theorem advance {f : Unit → Reading β} {front back : List Char} {count : Nat}
    (hcount : count = front.length) (h : (f ()).Takes back b tail) :
    (Reading.advance count >>= f).Takes (front ++ back) b tail :=
  bind (take hcount _) h

/-- Taking the characters of a text at last. -/
theorem advanceLast {f : Unit → Reading β} {count : Nat} (hcount : count = text.length)
    (h : (f ()).Takes [] b tail) : (Reading.advance count >>= f).Takes text b tail :=
  last (take hcount tail) h

/-- Taking one character. -/
theorem cons {f : Unit → Reading β} {c : Char} {back : List Char}
    (h : (f ()).Takes back b tail) : (Reading.advance 1 >>= f).Takes (c :: back) b tail := by
  have htext : (Reading.advance 1 >>= f).Takes ([c] ++ back) b tail := advance rfl h
  exact htext

/-- No layout ahead. -/
theorem layout {f : Unit → Reading β} (hlayout : layoutLength (text ++ tail) = 0)
    (h : (f ()).Takes text b tail) : (skipLayout >>= f).Takes text b tail := by
  refine seq ?_ h
  intro s hs
  have hrest : layoutLength s.rest = 0 := by rw [hs]; exact hlayout
  rw [run_skipLayout, hrest]
  rfl

/-- A space ahead, and no more layout after it. -/
theorem space {f : Unit → Reading β} (hlayout : layoutLength (text ++ tail) = 0)
    (h : (f ()).Takes text b tail) : (skipLayout >>= f).Takes (' ' :: text) b tail := by
  have hspace : skipLayout.Takes [' '] () (text ++ tail) := by
    intro s hs
    have hrest : layoutLength s.rest = 1 := by
      rw [hs, List.singleton_append, layoutLength_blank (by decide), hlayout]
    rw [run_skipLayout, hrest]
    rfl
  exact bind hspace h

/-- Layout is taken whether there is a space or none. -/
theorem blank {f : Unit → Reading β} (hlayout : layoutLength (text ++ tail) = 0)
    (h : (f ()).Takes text b tail) :
    (skipLayout >>= f).Takes text b tail ∧ (skipLayout >>= f).Takes (' ' :: text) b tail :=
  ⟨layout hlayout h, space hlayout h⟩

/-- A space may stand before a text that begins with no layout, if layout is skipped at first. -/
theorem spaced {f : Unit → Reading β} (hlayout : layoutLength (text ++ tail) = 0)
    (h : (skipLayout >>= f).Takes text b tail) : (skipLayout >>= f).Takes (' ' :: text) b tail := by
  refine space hlayout fun s hs => ?_
  have hskip : skipLayout s = .ok () s := by
    rw [run_skipLayout, hs, hlayout, Scan.advance_zero]
  have hrun := h s hs
  rwa [run_bind_ok hskip] at hrun

/-- No primes ahead. -/
theorem noPrimes {f : Nat → Reading β} (hprimes : primeCount (text ++ tail) = 0)
    (h : (f 0).Takes text b tail) : (primes >>= f).Takes text b tail := by
  refine seq ?_ h
  intro s hs
  have hrest : primeCount s.rest = 0 := by rw [hs]; exact hprimes
  rw [run_primes, hrest]
  rfl

/-- A choice that is made one way. -/
theorem ite_pos {c : Prop} [Decidable c] {m' : Reading α} (hc : c) (h : m.Takes text a tail) :
    (if c then m else m').Takes text a tail := by
  rwa [if_pos hc]

/-- A choice that is made the other way. -/
theorem ite_neg {c : Prop} [Decidable c] {m' : Reading α} (hc : ¬ c) (h : m.Takes text a tail) :
    (if c then m' else m).Takes text a tail := by
  rwa [if_neg hc]

end Takes

end Reading

end OfficeMath
