import OfficeMath.Text.Alphabetic
import OfficeMath.Text.Blank

/-!
# Classes of characters

Letters, digits and blanks are three classes without a common character.  A condition on the
characters of a text is decided from the text.
-/

namespace OfficeMath

/-- A condition on the characters of a text is checked one by one, and not for all characters that
there are. -/
instance decidableForallMem {p : Char → Prop} [DecidablePred p] (text : List Char) :
    Decidable (∀ c ∈ text, p c) := List.decidableBAll p text

/-- A code point in a list of ranges lies in one of them. -/
theorem exists_of_inRanges {n : Nat} {ranges : List (Nat × Nat)} (h : inRanges n ranges) :
    ∃ r ∈ ranges, r.1 ≤ n ∧ n ≤ r.2 := by
  induction ranges with
  | nil => simp [inRanges] at h
  | cons r rest ih =>
    simp only [inRanges] at h
    split at h
    · contradiction
    · next hlow =>
      rcases (Bool.or_eq_true _ _).mp h with hhigh | hrest
      · exact ⟨r, List.mem_cons_self, by omega, of_decide_eq_true hhigh⟩
      · obtain ⟨r', hr', hbounds⟩ := ih hrest
        exact ⟨r', List.mem_cons_of_mem _ hr', hbounds⟩

/-- What holds of the blank characters one by one holds of any blank character. -/
theorem forall_isBlank (p : Char → Prop)
    (h : ∀ r ∈ blankRanges, ∀ k < r.2 + 1 - r.1, p (Char.ofNat (r.1 + k))) {c : Char}
    (hc : isBlank c) : p c := by
  obtain ⟨r, hr, hlow, hhigh⟩ := exists_of_inRanges hc
  have hp := h r hr (c.toNat - r.1) (by omega)
  rwa [Nat.add_sub_cancel' hlow, Char.ofNat_toNat] at hp

/-- Neither a letter nor a digit is blank. -/
theorem isBlank_eq_false {c : Char} (h : isAlphabetic c ∨ c.isDigit) : isBlank c = false := by
  by_cases hblank : isBlank c
  · have hneither : isAlphabetic c = false ∧ c.isDigit = false :=
      forall_isBlank (fun c => isAlphabetic c = false ∧ c.isDigit = false) (by decide +kernel)
        hblank
    simp [hneither] at h
  · simpa using hblank

/-- No letter is a digit. -/
theorem isDigit_eq_false {c : Char} (h : isAlphabetic c) : c.isDigit = false := by
  by_cases hdigit : c.isDigit
  · obtain ⟨-, hhigh⟩ := Char.isDigit_iff_toNat.mp hdigit
    have hnine : c.toNat ≤ 57 := hhigh
    rw [isAlphabetic_ascii (by omega)] at h
    rcases (Bool.or_eq_true _ _).mp h with hupper | hlower
    · obtain ⟨hfirst, -⟩ := of_decide_eq_true hupper
      have hletter : 65 ≤ c.toNat := UInt32.le_iff_toNat_le.mp hfirst
      omega
    · obtain ⟨hfirst, -⟩ := (Bool.and_eq_true _ _).mp hlower
      have hletter : 97 ≤ c.toNat := UInt32.le_iff_toNat_le.mp (of_decide_eq_true hfirst)
      omega
  · simpa using hdigit

/-- What holds of the first 128 characters one by one holds of any character in ASCII. -/
theorem forall_ascii (p : Char → Prop) (h : ∀ n < 128, p (Char.ofNat n)) {c : Char}
    (hc : c.toNat < 128) : p c := by
  have hp := h c.toNat hc
  rwa [Char.ofNat_toNat] at hp

/-- Letters and digits are in ASCII. -/
theorem toNat_lt_of_isAlphanum {c : Char} (h : c.isAlphanum) : c.toNat < 128 := by
  rcases (Bool.or_eq_true _ _).mp h with hletter | hdigit
  · rcases (Bool.or_eq_true _ _).mp hletter with hupper | hlower
    · obtain ⟨-, hhigh⟩ := of_decide_eq_true hupper
      have hlast : c.toNat ≤ 90 := UInt32.le_iff_toNat_le.mp hhigh
      omega
    · obtain ⟨-, hhigh⟩ := (Bool.and_eq_true _ _).mp hlower
      have hlast : c.toNat ≤ 122 := UInt32.le_iff_toNat_le.mp (of_decide_eq_true hhigh)
      omega
  · obtain ⟨-, hhigh⟩ := Char.isDigit_iff_toNat.mp hdigit
    have hlast : c.toNat ≤ 57 := hhigh
    omega

/-- What holds of the ten digits holds of any digit. -/
theorem forall_isDigit (p : Char → Prop) (h : ∀ k < 10, p (Char.ofNat (48 + k))) {c : Char}
    (hc : c.isDigit) : p c := by
  obtain ⟨hlow, hhigh⟩ := Char.isDigit_iff_toNat.mp hc
  have hlow : 48 ≤ c.toNat := hlow
  have hhigh : c.toNat ≤ 57 := hhigh
  have hp := h (c.toNat - 48) (by omega)
  rwa [Nat.add_sub_cancel' hlow, Char.ofNat_toNat] at hp

end OfficeMath
