import OfficeMath.Latex.Lexeme
import OfficeMath.Proofs.Text.Characters

/-!
# Numerals

The texts that count as a number: digits, digits with a decimal dot and more digits, or a dot with
digits after it.  `Numeral` says this as a language, apart from how such a text is found.

* `numeral_take_numberLength` — what is taken for a number is a numeral;
* `numberLength_append` — a numeral is taken whole where nothing after it could belong to it.
-/

namespace OfficeMath

/-- A run of at least one digit. -/
def DigitRun (text : List Char) : Prop := text ≠ [] ∧ ∀ c ∈ text, c.isDigit

/-- The texts of numbers. -/
inductive Numeral : List Char → Prop
  | whole {digits : List Char} (h : DigitRun digits) : Numeral digits
  | decimal {digits places : List Char} (h : DigitRun digits) (h' : DigitRun places) :
    Numeral (digits ++ '.' :: places)
  | places {places : List Char} (h : DigitRun places) : Numeral ('.' :: places)

/-- The digits at the start of a text. -/
theorem take_digitCount (text : List Char) :
    text.take (digitCount text) = text.takeWhile Char.isDigit := by
  have split : text.takeWhile Char.isDigit ++ text.dropWhile Char.isDigit = text :=
    List.takeWhile_append_dropWhile
  calc text.take (digitCount text)
      = (text.takeWhile Char.isDigit ++ text.dropWhile Char.isDigit).take
          (text.takeWhile Char.isDigit).length := by rw [split, digitCount]
    _ = text.takeWhile Char.isDigit := List.take_left

/-- If there are digits at the start of a text, they are a run. -/
theorem digitRun_take_digitCount {text : List Char} (h : digitCount text ≠ 0) :
    DigitRun (text.take (digitCount text)) := by
  rw [take_digitCount]
  constructor
  · exact List.ne_nil_of_length_pos (Nat.pos_of_ne_zero h)
  · intro c hc
    exact List.all_eq_true.mp List.all_takeWhile c hc

/-- The digits of a text that begins with digits and goes on with something else. -/
theorem digitCount_append {digits rest : List Char} (h : ∀ c ∈ digits, c.isDigit)
    (hrest : ∀ c ∈ rest.head?, c.isDigit = false) :
    digitCount (digits ++ rest) = digits.length := by
  have none : rest.takeWhile Char.isDigit = [] := by
    cases rest with
    | nil => rfl
    | cons c rest => simp [hrest c rfl]
  rw [digitCount, List.takeWhile_append_of_pos h, none, List.append_nil]

/-- Digits are followed by decimal places if a dot and a digit come after them. -/
theorem numberLength_of_dot {text after : List Char}
    (h : text.drop (digitCount text) = '.' :: after) :
    numberLength text = if digitCount after = 0 then digitCount text
      else digitCount text + 1 + digitCount after := by
  simp only [numberLength, h]

/-- Without a dot a number ends with its first run of digits. -/
theorem numberLength_of_not_dot {text : List Char}
    (h : (text.drop (digitCount text)).head? ≠ some '.') : numberLength text = digitCount text := by
  simp only [numberLength]
  split
  · next hdot => exact absurd (by rw [hdot, List.head?_cons]) h
  · rfl

/-- A number is no longer than the text that it begins. -/
theorem numberLength_le (text : List Char) : numberLength text ≤ text.length := by
  have hdigits (text : List Char) : digitCount text ≤ text.length :=
    (List.takeWhile_prefix _).length_le
  have hwhole := hdigits text
  by_cases hdot : (text.drop (digitCount text)).head? = some '.'
  · obtain ⟨after, hafter⟩ := List.head?_eq_some_iff.mp hdot
    have hlength := congrArg List.length hafter
    rw [List.length_drop, List.length_cons] at hlength
    have hplaces := hdigits after
    rw [numberLength_of_dot hafter]
    split <;> omega
  · rw [numberLength_of_not_dot hdot]
    exact hwhole

/-- What is taken for a number is one. -/
theorem numeral_take_numberLength {text : List Char} (h : numberLength text ≠ 0) :
    Numeral (text.take (numberLength text)) := by
  simp only [numberLength] at h ⊢
  split at h
  case h_1 after hafter =>
    split at h
    case isTrue hplaces =>
      rw [if_pos hplaces]
      exact .whole (digitRun_take_digitCount h)
    case isFalse hplaces =>
      have run := digitRun_take_digitCount hplaces
      have taken : text.take (digitCount text + 1 + digitCount after)
          = text.take (digitCount text) ++ '.' :: after.take (digitCount after) := by
        rw [Nat.add_assoc, List.take_add, hafter, Nat.add_comm 1, List.take_succ_cons]
      rw [if_neg hplaces, taken]
      by_cases hwhole : digitCount text = 0
      · rw [hwhole]
        exact .places run
      · exact .decimal (digitRun_take_digitCount hwhole) run
  case h_2 => exact .whole (digitRun_take_digitCount h)

/-- A numeral is taken whole where the text after it begins with neither a digit nor a dot. -/
theorem numberLength_append {text rest : List Char} (h : Numeral text)
    (hdigit : ∀ c ∈ rest.head?, c.isDigit = false) (hdot : rest.head? ≠ some '.') :
    numberLength (text ++ rest) = text.length := by
  cases h with
  | whole h =>
    simp only [numberLength, digitCount_append h.2 hdigit, List.drop_left]
    split
    · simp at hdot
    · rfl
  | @decimal digits places h h' =>
    have hcount : digitCount (digits ++ '.' :: (places ++ rest)) = digits.length :=
      digitCount_append h.2 (by simp)
    have hplaces : places.length ≠ 0 := by simpa using h'.1
    simp only [List.append_assoc, List.cons_append, numberLength, hcount, List.drop_left,
      digitCount_append h'.2 hdigit, if_neg hplaces, List.length_append, List.length_cons]
    omega
  | @places places h =>
    have hcount : digitCount ([] ++ '.' :: (places ++ rest)) = ([] : List Char).length :=
      digitCount_append (by simp) (by simp)
    rw [List.nil_append, List.length_nil] at hcount
    have hplaces : places.length ≠ 0 := by simpa using h.1
    simp only [List.cons_append, numberLength, hcount, List.drop_zero,
      digitCount_append h.2 hdigit, if_neg hplaces, List.length_cons]
    omega

/-- A numeral begins with a digit or a dot. -/
theorem Numeral.exists_head {text : List Char} (h : Numeral text) :
    ∃ c after, text = c :: after ∧ (c.isDigit ∨ c = '.') := by
  have first {digits : List Char} (h : DigitRun digits) :
      ∃ c after, digits = c :: after ∧ c.isDigit := by
    obtain ⟨c, after, rfl⟩ := List.exists_cons_of_ne_nil h.1
    exact ⟨c, after, rfl, h.2 c List.mem_cons_self⟩
  cases h with
  | whole h =>
    obtain ⟨c, after, rfl, hc⟩ := first h
    exact ⟨c, after, rfl, .inl hc⟩
  | decimal h h' =>
    obtain ⟨c, after, rfl, hc⟩ := first h
    exact ⟨c, _, rfl, .inl hc⟩
  | places h => exact ⟨'.', _, rfl, .inr rfl⟩

/-- The characters of a numeral are digits and dots. -/
theorem Numeral.isDigit_or_eq_dot {text : List Char} (h : Numeral text) {c : Char} (hc : c ∈ text) :
    c.isDigit ∨ c = '.' := by
  cases h with
  | whole h => exact .inl (h.2 c hc)
  | decimal h h' =>
    rcases List.mem_append.mp hc with hc | hc
    · exact .inl (h.2 c hc)
    · rcases List.mem_cons.mp hc with hc | hc
      · exact .inr hc
      · exact .inl (h'.2 c hc)
  | places h =>
    rcases List.mem_cons.mp hc with hc | hc
    · exact .inr hc
    · exact .inl (h.2 c hc)

/-- A text that begins with a digit begins with a number. -/
theorem numberLength_ne_zero {c : Char} (h : c.isDigit) (after : List Char) :
    numberLength (c :: after) ≠ 0 := by
  have hcount : digitCount (c :: after) ≠ 0 := by simp [digitCount, h]
  unfold numberLength
  dsimp only
  split
  · split <;> omega
  · exact hcount

end OfficeMath
