import OfficeMath.Latex.EnvironmentText
import OfficeMath.Proofs.Latex.Numeral
import OfficeMath.Proofs.Latex.Significant

/-!
# Looking ahead to a fence

Two texts may agree up to a closing character and go on differently after it (`Fenced`).  This
character is a fence for whoever looks ahead: it ends a command name, a number and a run of
apostrophes, and it is no layout.  So in both texts the same lexemes are seen from any place before
the fence (`Fenced.looksAlike`), even though the reader looks for them to the end of the text.

Layout, and everything that is searched for, may reach beyond the fence.  If it does not in one of
the texts, it is the same in the other one.
-/

namespace OfficeMath

/-- Two texts that agree up to a closing character and go on differently after it. -/
def Fenced (closer : Closer) (tail tail' : List Char) (x y : List Char) : Prop :=
  ∃ front, x = front ++ closer.char :: tail ∧ y = front ++ closer.char :: tail'

/-- The lexemes at the beginning of two texts are the same. -/
structure LooksAlike (x y : List Char) : Prop where
  head : y.head? = x.head?
  command : commandAt? y = commandAt? x
  delimiter : delimiterAt? y = delimiterAt? x
  primes : primeCount y = primeCount x
  number : numberLength y = numberLength x
  digits : y.take (numberLength x) = x.take (numberLength x)

/-- A text looks like itself. -/
theorem LooksAlike.refl (x : List Char) : LooksAlike x x := ⟨rfl, rfl, rfl, rfl, rfl, rfl⟩

/-- Texts that look alike have both ended or begin with the same character. -/
theorem LooksAlike.cases {x y : List Char} (h : LooksAlike x y) :
    (x = [] ∧ y = []) ∨ ∃ c after after', x = c :: after ∧ y = c :: after' := by
  have hhead := h.head
  cases x with
  | nil =>
    cases y with
    | nil => exact .inl ⟨rfl, rfl⟩
    | cons d after' => cases hhead
  | cons c after =>
    cases y with
    | nil => cases hhead
    | cons d after' =>
      cases hhead
      exact .inr ⟨c, after, after', rfl, rfl⟩

/-- A command that begins both texts has the same name in them. -/
theorem LooksAlike.commandName_eq {x y : List Char} (h : LooksAlike ('\\' :: x) ('\\' :: y)) :
    commandName y = commandName x := by
  have hname := congrArg String.toList (Option.some.inj h.command)
  rwa [String.toList_ofList, String.toList_ofList] at hname

/-! ## What a fence is not -/

/-- A closing character is no part of a longer lexeme. -/
theorem Closer.isFence (closer : Closer) : IsSolid closer.char ∧ closer.char.isAlpha = false ∧
    closer.char.isDigit = false ∧ closer.char ∉ ['*', '.', '\\', '\x27'] := by
  cases closer <;> decide

section
variable {closer : Closer} {front tail tail' : List Char}

/-- A run of characters ends at the fence. -/
theorem takeWhile_fence {p : Char → Bool} (hp : p closer.char = false) :
    (front ++ closer.char :: tail).takeWhile p = front.takeWhile p := by
  induction front with
  | nil => exact List.takeWhile_cons_of_neg (by simp [hp])
  | cons c front ih =>
    by_cases hc : p c
    · rw [List.cons_append, List.takeWhile_cons_of_pos hc, List.takeWhile_cons_of_pos hc, ih]
    · rw [List.cons_append, List.takeWhile_cons_of_neg hc, List.takeWhile_cons_of_neg hc]

/-- No digits are counted beyond a fence. -/
theorem digitCount_fence : digitCount (front ++ closer.char :: tail) = digitCount front := by
  obtain ⟨-, -, hdigit, -⟩ := closer.isFence
  rw [digitCount, digitCount, takeWhile_fence hdigit]

/-- Nor are apostrophes. -/
theorem primeCount_fence : primeCount (front ++ closer.char :: tail) = primeCount front := by
  have hprime : decide (closer.char = '\x27') = false := by cases closer <;> decide
  rw [primeCount, primeCount, takeWhile_fence hprime]

/-- No number goes on beyond a fence. -/
theorem numberLength_fence : numberLength (front ++ closer.char :: tail) = numberLength front := by
  obtain ⟨-, -, -, hmarks⟩ := closer.isFence
  have hwhole : digitCount front ≤ front.length := (List.takeWhile_prefix _).length_le
  have hdrop : (front ++ closer.char :: tail).drop (digitCount (front ++ closer.char :: tail))
      = front.drop (digitCount front) ++ closer.char :: tail := by
    rw [digitCount_fence, List.drop_append_of_le_length hwhole]
  by_cases hdot : (front.drop (digitCount front)).head? = some '.'
  · obtain ⟨places, hplaces⟩ := List.head?_eq_some_iff.mp hdot
    rw [hplaces, List.cons_append] at hdrop
    rw [numberLength_of_dot hdrop, numberLength_of_dot hplaces, digitCount_fence, digitCount_fence]
  · have hdot' : ((front ++ closer.char :: tail).drop
        (digitCount (front ++ closer.char :: tail))).head? ≠ some '.' := by
      rw [hdrop]
      cases hafter : front.drop (digitCount front) with
      | nil =>
        intro hfence
        exact hmarks (by simp [Option.some.inj hfence])
      | cons c after =>
        rw [hafter] at hdot
        exact hdot
    rw [numberLength_of_not_dot hdot', numberLength_of_not_dot hdot, digitCount_fence]

/-- The name of a command ends at the fence, unless the fence is the name. -/
theorem commandName_fence :
    commandName (front ++ closer.char :: tail)
      = if front = [] then [closer.char] else commandName front := by
  obtain ⟨-, hletter, -, hmarks⟩ := closer.isFence
  cases front with
  | nil => exact commandName_cons hletter tail
  | cons c front =>
    rw [if_neg (List.cons_ne_nil c front)]
    have hletters : (c :: front ++ closer.char :: tail).takeWhile Char.isAlpha
        = (c :: front).takeWhile Char.isAlpha := takeWhile_fence hletter
    unfold commandName
    rw [hletters]
    cases hword : (c :: front).takeWhile Char.isAlpha with
    | nil => rfl
    | cons first more =>
      have hlength : (first :: more).length ≤ (c :: front).length := by
        rw [← hword]
        exact (List.takeWhile_prefix _).length_le
      dsimp only
      rw [List.drop_append_of_le_length hlength]
      cases (c :: front).drop (first :: more).length with
      | nil =>
        rw [List.nil_append]
        split
        · next heq => exact absurd (by simp [(List.cons.inj heq).1]) hmarks
        · rfl
      | cons d after =>
        by_cases hstar : d = '*'
        · subst hstar
          rfl
        · rw [List.cons_append]
          split
          · next heq => exact absurd (List.cons.inj heq).1 hstar
          split
          · next heq => exact absurd (List.cons.inj heq).1 hstar
          · rfl

/-- Layout that ends before the fence. -/
theorem layoutLength_fence {inComment : Bool}
    (h : layoutLengthFrom inComment (front ++ closer.char :: tail) ≤ front.length) :
    layoutLengthFrom inComment (front ++ closer.char :: tail')
      = layoutLengthFrom inComment (front ++ closer.char :: tail) := by
  obtain ⟨⟨hblank, hpercent⟩, -⟩ := closer.isFence
  induction front generalizing inComment with
  | nil =>
    cases inComment with
    | true =>
      simp only [List.nil_append, layoutLengthFrom, List.length_nil] at h
      omega
    | false =>
      show layoutLength _ = layoutLength _
      rw [List.nil_append, List.nil_append, layoutLength_cons hblank hpercent,
        layoutLength_cons hblank hpercent]
  | cons c front ih =>
    rw [List.cons_append, List.length_cons] at h
    rw [List.cons_append, List.cons_append]
    cases inComment with
    | true =>
      rw [layoutLengthFrom] at h ⊢
      rw [layoutLengthFrom, ih (by omega)]
    | false =>
      unfold layoutLengthFrom at h ⊢
      by_cases hblank' : isBlank c
      · rw [if_pos hblank'] at h
        rw [if_pos hblank', if_pos hblank', ih (by omega)]
      rw [if_neg hblank'] at h
      rw [if_neg hblank', if_neg hblank']
      by_cases hpercent' : c = '%'
      · rw [if_pos hpercent'] at h
        rw [if_pos hpercent', if_pos hpercent', ih (by omega)]
      · rw [if_neg hpercent', if_neg hpercent']

/-- A mark that is found before the fence. -/
theorem before_fence {mark : Char} {taken : List Char}
    (h : before? mark (front ++ closer.char :: tail) = some taken)
    (hlength : taken.length < front.length) :
    before? mark (front ++ closer.char :: tail') = some taken := by
  induction front generalizing taken with
  | nil => exact absurd hlength (Nat.not_lt_zero _)
  | cons c front ih =>
    rw [List.cons_append, before?] at h ⊢
    by_cases hmark : c = mark
    · rw [if_pos hmark] at h ⊢
      exact h
    · rw [if_neg hmark] at h ⊢
      obtain ⟨more, hmore, rfl⟩ := Option.map_eq_some_iff.mp h
      rw [ih hmore (Nat.lt_of_succ_lt_succ hlength)]
      rfl

/-- A column specification that is closed before the fence. -/
theorem specificationAhead_fence {depth : Nat} {found : List Char × Nat}
    (h : specificationAhead? depth (front ++ closer.char :: tail) = some found)
    (hlength : found.2 ≤ front.length) :
    specificationAhead? depth (front ++ closer.char :: tail') = some found := by
  induction front generalizing depth found with
  | nil =>
    have hnone := Nat.le_zero.mp hlength
    rw [List.nil_append] at h
    unfold specificationAhead? at h
    split at h
    · obtain ⟨more, -, rfl⟩ := Option.map_eq_some_iff.mp h
      cases hnone
    split at h
    · split at h
      · cases h
        cases hnone
      · obtain ⟨more, -, rfl⟩ := Option.map_eq_some_iff.mp h
        cases hnone
    · obtain ⟨more, -, rfl⟩ := Option.map_eq_some_iff.mp h
      cases hnone
  | cons c front ih =>
    rw [List.cons_append] at h ⊢
    unfold specificationAhead? at h ⊢
    by_cases hopening : c = '{'
    · rw [if_pos hopening] at h ⊢
      obtain ⟨more, hmore, rfl⟩ := Option.map_eq_some_iff.mp h
      rw [ih hmore (Nat.le_of_succ_le_succ hlength)]
      rfl
    rw [if_neg hopening] at h ⊢
    by_cases hclosing : c = '}'
    · rw [if_pos hclosing] at h ⊢
      cases depth with
      | zero => exact h
      | succ depth =>
        obtain ⟨more, hmore, rfl⟩ := Option.map_eq_some_iff.mp h
        dsimp only
        rw [ih hmore (Nat.le_of_succ_le_succ hlength)]
        rfl
    · rw [if_neg hclosing] at h ⊢
      obtain ⟨more, hmore, rfl⟩ := Option.map_eq_some_iff.mp h
      rw [ih hmore (Nat.le_of_succ_le_succ hlength)]
      rfl

/-- What the reader sees before the fence is the same in both texts. -/
theorem Fenced.looksAlike {x y : List Char} (h : Fenced closer tail tail' x y) :
    LooksAlike x y := by
  obtain ⟨front, rfl, rfl⟩ := h
  have hname (front : List Char) : commandName (front ++ closer.char :: tail')
      = commandName (front ++ closer.char :: tail) := by
    rw [commandName_fence, commandName_fence]
  have hbackslash : closer.char ≠ '\\' := by cases closer <;> decide
  constructor
  · cases front <;> rfl
  · cases front with
    | nil =>
      rw [List.nil_append, List.nil_append, commandAt?_cons_of_ne hbackslash,
        commandAt?_cons_of_ne hbackslash]
    | cons c front =>
      by_cases hc : c = '\\'
      · subst hc
        exact congrArg (fun name => some (String.ofList name)) (hname front)
      · rw [List.cons_append, List.cons_append, commandAt?_cons_of_ne hc, commandAt?_cons_of_ne hc]
  · cases front with
    | nil => simp only [List.nil_append, delimiterAt?, if_neg hbackslash]
    | cons c front => simp only [List.cons_append, delimiterAt?, hname]
  · rw [primeCount_fence, primeCount_fence]
  · rw [numberLength_fence, numberLength_fence]
  · rw [numberLength_fence, List.take_append_of_le_length (numberLength_le front),
      List.take_append_of_le_length (numberLength_le front)]

end

end OfficeMath
