import OfficeMath.Proofs.Latex.Depth
import OfficeMath.Proofs.Latex.Fence

/-!
# Reading up to a fence

Two formulas are read that agree up to a fence (`Fenced`).  A step keeps pace
(`Reading.KeepsPace`) if it does the same in both of them whenever it ends before the fence in the
first one.  Nothing is said of a step that fails or goes beyond the fence, and this is what makes
the claim carry over from the parts to the whole: reading only goes forward, so if the whole ends
before the fence, so does every part of it (`Reading.Fenced.bind`).

Steps that look ahead for lexemes see the same in both formulas (`Reading.Fenced.rest`).  Those that
search for something may see different things (`Reading.Fenced.ahead`), but then they go beyond the
fence.  The loops through plain text and through the body of an unsupported environment have a
bound that depends on the length of the formula; it makes no difference either, as it is never
reached (`Reading.keepsPace_of_bounded`).
-/

namespace OfficeMath

/-! ## Steps before the fence -/

/-- Two scans at the same place, in formulas that agree up to a fence ahead. -/
structure Scan.Fenced (closer : Closer) (tail tail' : List Char) (s u : Scan) : Prop where
  offset : u.offset = s.offset
  notes : u.notes = s.notes
  rest : OfficeMath.Fenced closer tail tail' s.rest u.rest

namespace Reading

variable {closer : Closer} {tail tail' : List Char} {α β : Type}

/-- At one place: if the first step succeeds before the fence, so does the second one, with the
same value and the same notes and at the same place. -/
def KeepsPace (closer : Closer) (tail tail' : List Char) (m m' : Reading α) (s u : Scan) : Prop :=
  ∀ a t, m s = .ok a t → tail.length < t.rest.length →
    ∃ v, m' u = .ok a v ∧ Scan.Fenced closer tail tail' t v

/-- A step that does not depend on what is behind the fence, unless it goes there. -/
structure Fenced (closer : Closer) (tail tail' : List Char) (m m' : Reading α) : Prop where
  forward : m.Forward
  keepsPace : ∀ s u, Scan.Fenced closer tail tail' s u → KeepsPace closer tail tail' m m' s u

namespace Fenced

variable {m m' n n' : Reading α} {f f' : α → Reading β}

theorem pure (a : α) : Fenced closer tail tail' (Pure.pure a : Reading α) (Pure.pure a) := by
  refine ⟨.pure a, fun s u hsu b t hrun _ => ?_⟩
  cases hrun
  exact ⟨u, rfl, hsu⟩

theorem note (n : Note) : Fenced closer tail tail' (Reading.note n) (Reading.note n) := by
  refine ⟨.note n, fun s u hsu b t hrun _ => ?_⟩
  cases hrun
  exact ⟨_, rfl, hsu.offset, congrArg (n :: ·) hsu.notes, hsu.rest⟩

theorem unclosed (c : Closer) :
    Fenced closer tail tail' (Reading.unclosed c : Reading α) (Reading.unclosed c) :=
  ⟨.unclosed c, fun _ _ _ _ _ hrun => by cases hrun⟩

/-- Two steps in a row.  The first one ends before the fence if both together do. -/
theorem bind (first : Fenced closer tail tail' m m')
    (second : ∀ a, Fenced closer tail tail' (f a) (f' a)) :
    Fenced closer tail tail' (m >>= f) (m' >>= f') := by
  refine ⟨.bind first.forward fun a => (second a).forward, fun s u hsu b w hrun hw => ?_⟩
  obtain ⟨a, t, hm, hf⟩ := bind_eq_ok.mp hrun
  have hlater := ((second a).forward.leads hf).length_le
  obtain ⟨v, hm', htv⟩ := first.keepsPace s u hsu a t hm (by omega)
  obtain ⟨x, hf', hwx⟩ := (second a).keepsPace t v htv b w hf hw
  exact ⟨x, (run_bind_ok hm').trans hf', hwx⟩

/-- A choice between two steps. -/
theorem ite {c : Prop} [Decidable c] (yes : c → Fenced closer tail tail' m m')
    (no : ¬ c → Fenced closer tail tail' n n') :
    Fenced closer tail tail' (if c then m else n) (if c then m' else n') := by
  by_cases h : c
  · rw [if_pos h, if_pos h]
    exact yes h
  · rw [if_neg h, if_neg h]
    exact no h

/-- Looking ahead.  What is seen is the same in both formulas. -/
theorem rest {f f' : List Char → Reading β}
    (h : ∀ x y, LooksAlike x y → Fenced closer tail tail' (f x) (f' y)) :
    Fenced closer tail tail' (Reading.rest >>= f) (Reading.rest >>= f') := by
  refine ⟨.bind .rest fun x => (h x x (.refl x)).forward, fun s u hsu => ?_⟩
  exact (h _ _ hsu.rest.looksAlike).keepsPace s u hsu

/-- Looking ahead from a given place, where what is seen may differ behind the fence. -/
theorem ahead {f : List Char → Reading β} (hforward : ∀ x, (f x).Forward)
    (h : ∀ s u, Scan.Fenced closer tail tail' s u →
      KeepsPace closer tail tail' (f s.rest) (f u.rest) s u) :
    Fenced closer tail tail' (Reading.rest >>= f) (Reading.rest >>= f) :=
  ⟨.bind .rest hforward, h⟩

/-- Looking at the offset. -/
theorem offset {f f' : Nat → Reading β}
    (h : ∀ start, Fenced closer tail tail' (f start) (f' start)) :
    Fenced closer tail tail' (Reading.offset >>= f) (Reading.offset >>= f') := by
  refine ⟨.bind .offset fun start => (h start).forward, fun s u hsu => ?_⟩
  have hrun := (h s.offset).keepsPace s u hsu
  intro b t hb ht
  obtain ⟨v, hv, htv⟩ := hrun b t hb ht
  refine ⟨v, ?_, htv⟩
  rw [run_bind_ok (run_offset u), hsu.offset]
  exact hv

end Fenced

/-- Taking the same number of characters, if they are before the fence. -/
theorem fenced_of_advance {s u : Scan} (hsu : Scan.Fenced closer tail tail' s u) {count : Nat}
    (hcount : tail.length < (s.advance count).rest.length) :
    Scan.Fenced closer tail tail' (s.advance count) (u.advance count) := by
  obtain ⟨front, hs, hu⟩ := hsu.rest
  have hlength : count ≤ front.length := by
    simp only [Scan.advance, hs, List.length_drop, List.length_append, List.length_cons] at hcount
    omega
  refine ⟨?_, hsu.notes, front.drop count, ?_, ?_⟩
  · simp only [Scan.advance, hs, hu, hsu.offset, List.take_append_of_le_length hlength]
  · simp only [Scan.advance, hs, List.drop_append_of_le_length hlength]
  · simp only [Scan.advance, hu, List.drop_append_of_le_length hlength]

/-- Taking the same number of characters and going on, before the fence. -/
theorem keepsPace_advance {s u : Scan} (hsu : Scan.Fenced closer tail tail' s u) {count : Nat}
    {f f' : Unit → Reading β} (hf : (f ()).Forward)
    (h : Scan.Fenced closer tail tail' (s.advance count) (u.advance count) →
      KeepsPace closer tail tail' (f ()) (f' ()) (s.advance count) (u.advance count)) :
    KeepsPace closer tail tail' (advance count >>= f) (advance count >>= f') s u := by
  intro b t hrun ht
  have hafter : f () (s.advance count) = .ok b t := hrun
  have hlength := (hf.leads hafter).length_le
  exact h (fenced_of_advance hsu (by omega)) b t hafter ht

/-- Taking characters keeps pace up to the fence. -/
theorem fenced_advance (count : Nat) :
    Fenced closer tail tail' (advance count) (advance count) := by
  refine ⟨.advance count, fun s u hsu a t hrun ht => ?_⟩
  cases hrun
  exact ⟨_, rfl, fenced_of_advance hsu ht⟩

/-! ## The lexical steps -/

/-- Layout that reaches the fence is a comment and goes beyond it. -/
theorem fenced_skipLayout : Fenced closer tail tail' skipLayout skipLayout := by
  refine ⟨forward_skipLayout, fun s u hsu a t hrun ht => ?_⟩
  cases hrun
  obtain ⟨front, hs, hu⟩ := hsu.rest
  have hlength : layoutLength s.rest ≤ front.length := by
    simp only [Scan.advance, List.length_drop] at ht
    rw [hs] at ht ⊢
    simp only [List.length_append, List.length_cons] at ht
    omega
  have hsame : layoutLength u.rest = layoutLength s.rest := by
    rw [hs] at hlength
    rw [hs, hu]
    exact layoutLength_fence hlength
  refine ⟨_, rfl, ?_⟩
  rw [hsame]
  exact fenced_of_advance hsu ht

/-- No apostrophe is a fence. -/
theorem fenced_primes : Fenced closer tail tail' primes primes := by
  refine .rest fun x y hxy => ?_
  rw [hxy.primes]
  exact .bind (fenced_advance _) fun _ => .pure _

/-- Both texts begin with the same delimiter, or with none. -/
theorem fenced_delimiter : Fenced closer tail tail' delimiter? delimiter? := by
  refine .bind fenced_skipLayout fun _ => .rest fun x y hxy => ?_
  rw [hxy.delimiter]
  split
  · exact .bind (fenced_advance _) fun _ => .pure _
  · exact .pure _

/-- A missing delimiter is missing in both texts. -/
theorem fenced_delimiterAfter (command : String) :
    Fenced closer tail tail' (delimiterAfter command) (delimiterAfter command) := by
  refine .bind fenced_delimiter fun found => ?_
  split
  · exact .pure _
  · exact .offset fun _ => .bind (.note _) fun _ => .pure _

/-- A mark that is not found before the fence is searched for beyond it. -/
theorem fenced_through (mark : Char) :
    Fenced closer tail tail' (through? mark) (through? mark) := by
  refine ⟨forward_through mark, fun s u hsu a t hrun ht => ?_⟩
  obtain ⟨front, hs, hu⟩ := hsu.rest
  unfold through? at hrun ⊢
  rw [run_bind_ok (run_rest s)] at hrun
  rw [run_bind_ok (run_rest u)]
  cases hbefore : before? mark s.rest with
  | none =>
    rw [hbefore] at hrun
    cases hrun
    simp [Scan.advance] at ht
  | some taken =>
    rw [hbefore] at hrun
    cases hrun
    have hlength : taken.length < front.length := by
      simp only [Scan.advance, hs, List.length_drop, List.length_append, List.length_cons] at ht
      omega
    rw [hs] at hbefore
    rw [hu, before_fence hbefore hlength]
    exact ⟨_, rfl, fenced_of_advance hsu ht⟩

/-- The name of an environment that is closed before the fence is the same. -/
theorem fenced_environmentName :
    Fenced closer tail tail' environmentName? environmentName? := by
  refine .bind fenced_skipLayout fun _ => .rest fun x y hxy => ?_
  rcases hxy.cases with ⟨rfl, rfl⟩ | ⟨c, after, after', rfl, rfl⟩
  · exact .pure _
  by_cases hopening : c = '{'
  · subst hopening
    refine .bind (fenced_advance _) fun _ => .bind (fenced_through _) fun found => ?_
    cases found with
    | some name => exact .pure _
    | none => exact .unclosed _
  split
  · next heq => exact absurd (List.cons.inj heq).1 hopening
  split
  · next heq => exact absurd (List.cons.inj heq).1 hopening
  · exact .pure _

/-- A column specification that is not closed before the fence goes beyond it. -/
theorem fenced_columnSpecification :
    Fenced closer tail tail' columnSpecification columnSpecification := by
  refine .bind fenced_skipLayout fun _ => .ahead (fun x => ?_) fun s u hsu => ?_
  · split
    · refine .bind (.advance _) fun _ => ?_
      split
      · exact .bind (.advance _) fun _ => .pure _
      · exact .bind (.advance _) fun _ => .unclosed _
    · exact .pure _
  rcases hsu.rest.looksAlike.cases with ⟨hs, hu⟩ | ⟨c, after, after', hs, hu⟩
  · rw [hs, hu]
    exact (Fenced.pure _).keepsPace s u hsu
  rw [hs, hu]
  by_cases hopening : c = '{'
  · subst hopening
    refine keepsPace_advance hsu ?_ fun hinside a t hrun ht => ?_
    · split
      · exact .bind (.advance _) fun _ => .pure _
      · exact .bind (.advance _) fun _ => .unclosed _
    cases hfound : specificationAhead? 0 after with
    | none =>
      rw [hfound] at hrun
      cases hrun
    | some found =>
      have htaken : Fenced closer tail tail'
          (advance found.2 >>= fun _ => pure (columnAlignments found.1))
          (advance found.2 >>= fun _ => pure (columnAlignments found.1)) :=
        .bind (fenced_advance _) fun _ => .pure _
      obtain ⟨front, hfront, hfront'⟩ := hinside.rest
      rw [Scan.rest_advance_one hs] at hfront
      rw [Scan.rest_advance_one hu] at hfront'
      have hlength : found.2 ≤ front.length := by
        rw [hfound] at hrun
        cases hrun
        simp only [Scan.advance, hs, List.drop_succ_cons, List.drop_zero, List.length_drop,
          hfront, List.length_append, List.length_cons] at ht
        omega
      have hfound' : specificationAhead? 0 after' = some found := by
        rw [hfront] at hfound
        rw [hfront']
        exact specificationAhead_fence hfound hlength
      rw [hfound] at hrun
      rw [hfound']
      exact htaken.keepsPace _ _ hinside a t hrun ht
  · split
    · next heq => exact absurd (List.cons.inj heq).1 hopening
    split
    · next heq => exact absurd (List.cons.inj heq).1 hopening
    · exact (Fenced.pure _).keepsPace s u hsu

/-! ## Loops with a bound -/

/-- A loop with a bound that is large enough for what is ahead does not depend on the bound. -/
theorem keepsPace_of_bounded {s u : Scan} (bounded : Nat → Reading α)
    (hsame : ∀ {s : Scan} {bound bound'}, s.rest.length ≤ bound → s.rest.length ≤ bound' →
      SameAt s (bounded bound) (bounded bound'))
    (h : ∀ bound, Fenced closer tail tail' (bounded bound) (bounded bound))
    (hsu : Scan.Fenced closer tail tail' s u) {bound bound' : Nat} (hs : s.rest.length ≤ bound)
    (hu : u.rest.length ≤ bound') :
    KeepsPace closer tail tail' (bounded bound) (bounded bound') s u := by
  intro a t hrun ht
  let larger := bound + bound'
  rw [hsame hs (Nat.le_trans hs (Nat.le_add_right _ _) : s.rest.length ≤ larger)] at hrun
  rw [hsame hu (Nat.le_trans hu (Nat.le_add_left _ _) : u.rest.length ≤ larger)]
  exact (h larger).keepsPace s u hsu a t hrun ht

/-- At the end of the formula plain text is not closed, whatever the bound. -/
theorem textFrom_nil {s : Scan} (h : s.rest = []) (bound depth : Nat) (text : List Char) :
    SameAt s (textFrom bound depth text) (unclosed .brace) := by
  cases bound with
  | zero => exact .refl _
  | succ bound =>
    unfold textFrom
    show SameAt s _ (rest >>= fun _ => unclosed .brace)
    refine .rest ?_
    rw [h]
    exact .refl _

/-- The bound of plain text does not matter if it is large enough. -/
theorem textFrom_same {s : Scan} {bound bound' : Nat} (hbound : s.rest.length ≤ bound)
    (hbound' : s.rest.length ≤ bound') (depth : Nat) (text : List Char) :
    SameAt s (textFrom bound depth text) (textFrom bound' depth text) := by
  induction bound generalizing s bound' depth text with
  | zero =>
    have hrest : s.rest = [] := List.length_eq_zero_iff.mp (Nat.le_zero.mp hbound)
    exact (textFrom_nil hrest _ _ _).trans (textFrom_nil hrest _ _ _).symm
  | succ bound ih =>
    cases hrest : s.rest with
    | nil => exact (textFrom_nil hrest _ _ _).trans (textFrom_nil hrest _ _ _).symm
    | cons c after =>
      have hne : s.rest ≠ [] := by simp [hrest]
      cases bound' with
      | zero => exact absurd (List.length_eq_zero_iff.mp (Nat.le_zero.mp hbound')) hne
      | succ bound' =>
        unfold textFrom
        refine .rest ?_
        rw [hrest]
        refine .offset (.advance hne Nat.one_pos fun t ht => ?_)
        have next (depth : Nat) (text : List Char) :
            SameAt t (textFrom bound depth text) (textFrom bound' depth text) :=
          ih (by omega) (by omega) depth text
        split
        · cases depth with
          | zero => exact .refl _
          | succ depth => exact next _ _
        split
        · exact next _ _
        split
        · exact next _ _
        split
        · refine .seq (.advance _) fun _ u hu => ?_
          split
          · exact ih (by omega) (by omega) _ _
          split
          · exact .seq (.note _) fun _ v hv => ih (by omega) (by omega) _ _
          · exact ih (by omega) (by omega) _ _
        split
        · exact next _ _
        · exact next _ _

/-- Plain text keeps pace character by character, by induction on the bound. -/
theorem fenced_textFrom (bound depth : Nat) (text : List Char) :
    Fenced closer tail tail' (textFrom bound depth text) (textFrom bound depth text) := by
  induction bound generalizing depth text with
  | zero => exact .unclosed _
  | succ bound ih =>
    refine .rest fun x y hxy => ?_
    rcases hxy.cases with ⟨rfl, rfl⟩ | ⟨c, after, after', rfl, rfl⟩
    · exact .unclosed _
    refine .offset fun start => .bind (fenced_advance _) fun _ => ?_
    split
    · cases depth with
      | zero => exact .pure _
      | succ depth => exact ih _ _
    split
    · exact ih _ _
    split
    · exact ih _ _
    split
    · next hbackslash =>
      subst hbackslash
      dsimp only
      rw [hxy.commandName_eq]
      refine .bind (fenced_advance _) fun _ => ?_
      split
      · exact ih _ _
      split
      · exact .bind (.note _) fun _ => ih _ _
      · exact ih _ _
    split
    · exact ih _ _
    · exact ih _ _

/-- A text argument is the loop or a single character. -/
theorem fenced_textArgument : Fenced closer tail tail' textArgument textArgument := by
  refine .bind fenced_skipLayout fun _ => .ahead (fun x => ?_) fun s u hsu => ?_
  · split
    · exact .pure _
    refine .bind (.advance _) fun _ => ?_
    split
    · exact forward_textFrom _ _ _
    · exact .pure _
  rcases hsu.rest.looksAlike.cases with ⟨hs, hu⟩ | ⟨c, after, after', hs, hu⟩
  · rw [hs, hu]
    exact (Fenced.pure _).keepsPace s u hsu
  rw [hs, hu]
  refine keepsPace_advance hsu (.ite (forward_textFrom _ _ _) (.pure _)) fun hinside => ?_
  by_cases hopening : c = '{'
  · rw [if_pos hopening, if_pos hopening]
    rw [← Scan.rest_advance_one hs, ← Scan.rest_advance_one hu]
    exact keepsPace_of_bounded (textFrom · 0 []) (fun h h' => textFrom_same h h' 0 [])
      (fun _ => fenced_textFrom _ _ _) hinside (Nat.le_refl _) (Nat.le_refl _)
  · rw [if_neg hopening, if_neg hopening]
    exact (Fenced.pure _).keepsPace _ _ hinside

/-- At the end of the formula an environment is open, whatever the bound. -/
theorem skipEnvironmentFrom_nil {s : Scan} (h : s.rest = []) (name : String) (bound depth : Nat) :
    SameAt s (skipEnvironmentFrom name bound depth) (note (.openEnvironment name)) := by
  cases bound with
  | zero => exact .refl _
  | succ bound =>
    unfold skipEnvironmentFrom
    show SameAt s _ (rest >>= fun _ => note (.openEnvironment name))
    refine .rest ?_
    rw [h]
    exact .refl _

/-- The bound of a body that is passed over does not matter if it is large enough. -/
theorem skipEnvironmentFrom_same {s : Scan} (name : String) {bound bound' : Nat}
    (hbound : s.rest.length ≤ bound) (hbound' : s.rest.length ≤ bound') (depth : Nat) :
    SameAt s (skipEnvironmentFrom name bound depth) (skipEnvironmentFrom name bound' depth) := by
  induction bound generalizing s bound' depth with
  | zero =>
    have hrest : s.rest = [] := List.length_eq_zero_iff.mp (Nat.le_zero.mp hbound)
    exact (skipEnvironmentFrom_nil hrest _ _ _).trans (skipEnvironmentFrom_nil hrest _ _ _).symm
  | succ bound ih =>
    cases hrest : s.rest with
    | nil =>
      exact (skipEnvironmentFrom_nil hrest _ _ _).trans (skipEnvironmentFrom_nil hrest _ _ _).symm
    | cons c after =>
      have hne : s.rest ≠ [] := by simp [hrest]
      cases bound' with
      | zero => exact absurd (List.length_eq_zero_iff.mp (Nat.le_zero.mp hbound')) hne
      | succ bound' =>
        unfold skipEnvironmentFrom
        refine .rest ?_
        rw [hrest]
        refine .advance hne Nat.one_pos fun t ht => ?_
        have next {u : Scan} (hu : u.rest.length ≤ t.rest.length) (depth : Nat) :
            SameAt u (skipEnvironmentFrom name bound depth)
              (skipEnvironmentFrom name bound' depth) := ih (by omega) (by omega) depth
        split
        · refine .seq (.advance _) fun _ u hu => ?_
          split
          · refine .seq forward_environmentName fun found v hv => ?_
            split
            · exact next (by omega) _
            · exact next (by omega) _
          split
          · refine .seq forward_environmentName fun found v hv => ?_
            split
            · cases depth with
              | zero => exact .refl _
              | succ depth => exact next (by omega) _
            · exact next (by omega) _
          · exact next hu _
        · exact next (Nat.le_refl _) _

/-- A body that is passed over keeps pace character by character, by induction on the bound. -/
theorem fenced_skipEnvironmentFrom (name : String) (bound depth : Nat) :
    Fenced closer tail tail' (skipEnvironmentFrom name bound depth)
      (skipEnvironmentFrom name bound depth) := by
  induction bound generalizing depth with
  | zero => exact .note _
  | succ bound ih =>
    refine .rest fun x y hxy => ?_
    rcases hxy.cases with ⟨rfl, rfl⟩ | ⟨c, after, after', rfl, rfl⟩
    · exact .note _
    refine .bind (fenced_advance _) fun _ => .ite (fun hc => ?_) fun _ => ih _
    subst hc
    dsimp only
    rw [hxy.commandName_eq]
    refine .bind (fenced_advance _) fun _ => ?_
    split
    · refine .bind fenced_environmentName fun found => ?_
      split
      · exact ih _
      · exact ih _
    split
    · refine .bind fenced_environmentName fun found => ?_
      split
      · cases depth with
        | zero => exact .pure _
        | succ depth => exact ih _
      · exact ih _
    · exact ih _

/-- So does the loop through it. -/
theorem fenced_skipEnvironment (name : String) :
    Fenced closer tail tail' (skipEnvironment name) (skipEnvironment name) := by
  refine .ahead (fun x => forward_skipEnvironmentFrom _ _ _) fun s u hsu => ?_
  exact keepsPace_of_bounded (skipEnvironmentFrom name · 0)
    (fun h h' => skipEnvironmentFrom_same name h h' 0) (fun _ => fenced_skipEnvironmentFrom _ _ _)
    hsu (Nat.le_refl _) (Nat.le_refl _)

/-- A token that is dropped before the fence is the same in both texts. -/
theorem fenced_skipToken : Fenced closer tail tail' skipToken skipToken := by
  refine .offset fun start => .rest fun x y hxy => ?_
  rcases hxy.cases with ⟨rfl, rfl⟩ | ⟨c, after, after', rfl, rfl⟩
  · exact .pure _
  refine .bind (fenced_advance _) fun _ => .ite (fun hc => ?_) fun _ => .note _
  subst hc
  dsimp only
  rw [hxy.commandName_eq]
  refine .bind (fenced_advance _) fun _ => ?_
  split
  · exact .bind fenced_environmentName fun _ => .note _
  split
  · exact .bind fenced_delimiter fun _ => .note _
  · exact .note _

end Reading

end OfficeMath
