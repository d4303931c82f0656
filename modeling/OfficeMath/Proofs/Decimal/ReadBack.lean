import Mathlib.Data.List.TakeWhile
import OfficeMath.Decimal.Reading
import OfficeMath.Proofs.Decimal.Rounding

/-!
# The decimal text of a float reads as its digits

A float that is not infinite is written as a sign, digits, and if need be a point with digits
after it.  Reading this text gives back the decimal that was written, whatever stands after a
whole number, and so a decimal that rounds to the float.

* `denotes_digits`, `denotes_point` — what a run of digits denotes, without and with a point;
* `denotes_positional` — the digits and the exponent are laid out so that they are read back;
* `float?_render` — the text of a float, with its sign;
* `float?_rounds` — the decimal that is read rounds to the float that was written.
-/

namespace OfficeMath.Decimal

/-- A text that begins with a digit and is read, without a sign, as the float nearest to `r`. -/
structure Denotes (text : List Char) (r : ℚ) : Prop where
  starts : ∃ c rest, text = c :: rest ∧ c.isDigit
  reads : ∃ m e, magnitude? text = some (scientific m e) ∧ valueOf m e = r

/-- The value of a run of digits is that of the standard library. -/
theorem naturalOf_eq_ofDigitChars (text : List Char) :
    naturalOf text = Nat.ofDigitChars 10 text 0 :=
  Nat.ofDigitChars_eq_foldl.symm

/-- The value of a run of digits with more digits behind it. -/
theorem naturalOf_append (text text' : List Char) :
    naturalOf (text ++ text') = 10 ^ text'.length * naturalOf text + naturalOf text' := by
  rw [naturalOf_eq_ofDigitChars, naturalOf_eq_ofDigitChars, naturalOf_eq_ofDigitChars,
    Nat.ofDigitChars_append, Nat.ofDigitChars_eq_ofDigitChars_zero]

/-- Zeros count for nothing. -/
theorem naturalOf_zeros (n : Nat) : naturalOf (List.replicate n '0') = 0 := by
  rw [naturalOf_eq_ofDigitChars, Nat.ofDigitChars_replicate_zero, Nat.mul_zero]

/-- The digits of a number have its value. -/
theorem naturalOf_repr (d : Nat) : naturalOf (Nat.repr d).toList = d := by
  rw [naturalOf_eq_ofDigitChars, Nat.toList_repr, Nat.ofDigitChars_ten_toDigits]

/-- A number is written in digits, also with zeros on either side. -/
theorem isDigit_padded (d n n' : Nat) :
    ∀ c ∈ List.replicate n '0' ++ (Nat.repr d).toList ++ List.replicate n' '0', c.isDigit := by
  have hzeros : ∀ m, ∀ c ∈ List.replicate m '0', c.isDigit := by
    intro m c hc
    rw [List.eq_of_mem_replicate hc]
    decide
  intro c hc
  rcases List.mem_append.mp hc with hc | hc
  · rcases List.mem_append.mp hc with hc | hc
    · exact hzeros n c hc
    · rw [Nat.toList_repr] at hc
      exact Nat.isDigit_of_mem_toDigits (by decide) (by decide) hc
  · exact hzeros n' c hc

/-- Zeros before the digits change nothing, and each zero behind them is a factor of ten. -/
theorem naturalOf_padded (d n n' : Nat) :
    naturalOf (List.replicate n '0' ++ (Nat.repr d).toList ++ List.replicate n' '0')
      = d * 10 ^ n' := by
  rw [naturalOf_append, naturalOf_append, naturalOf_zeros, naturalOf_zeros, naturalOf_repr,
    List.length_replicate]
  ring

/-- What a run of digits denotes. -/
theorem denotes_digits {text : List Char} (hne : text ≠ []) (h : ∀ c ∈ text, c.isDigit) :
    Denotes text (naturalOf text) := by
  have htake : text.takeWhile Char.isDigit = text := List.takeWhile_eq_self_iff.mpr h
  have hdrop : text.dropWhile Char.isDigit = [] := List.dropWhile_eq_nil_iff.mpr h
  refine ⟨?_, naturalOf text, 0, ?_, ?_⟩
  · obtain ⟨c, rest, rfl⟩ := List.exists_cons_of_ne_nil hne
    exact ⟨c, rest, rfl, h c List.mem_cons_self⟩
  · simp [magnitude?, htake, hdrop, hne]
  · simp [valueOf]

/-- What digits with a point and more digits denote. -/
theorem denotes_point {text places : List Char} (hne : text ≠ []) (h : ∀ c ∈ text, c.isDigit)
    (hplaces : ∀ c ∈ places, c.isDigit) :
    Denotes (text ++ '.' :: places) (valueOf (naturalOf (text ++ places)) (-places.length)) := by
  have htake : (text ++ '.' :: places).takeWhile Char.isDigit = text := by
    rw [List.takeWhile_append_of_pos h, List.takeWhile_cons_of_neg (by decide), List.append_nil]
  have hdrop : (text ++ '.' :: places).dropWhile Char.isDigit = '.' :: places := by
    rw [List.dropWhile_append_of_pos h, List.dropWhile_cons_of_neg (by decide)]
  have htake' : places.takeWhile Char.isDigit = places := List.takeWhile_eq_self_iff.mpr hplaces
  have hdrop' : places.dropWhile Char.isDigit = [] := List.dropWhile_eq_nil_iff.mpr hplaces
  refine ⟨?_, naturalOf (text ++ places), -places.length, ?_, rfl⟩
  · obtain ⟨c, rest, rfl⟩ := List.exists_cons_of_ne_nil hne
    exact ⟨c, rest ++ '.' :: places, rfl, h c List.mem_cons_self⟩
  · simp [magnitude?, htake, hdrop, htake', hdrop', hne]

/-- A point set before the last digits divides by a power of ten. -/
theorem denotes_split {text : List Char} (h : ∀ c ∈ text, c.isDigit) (places : Nat)
    (hplaces : places < text.length) :
    Denotes (text.take (text.length - places) ++ '.' :: text.drop (text.length - places))
      (valueOf (naturalOf text) (-places)) := by
  have hfront : ∀ c ∈ text.take (text.length - places), c.isDigit := by
    intro c hc
    exact h c (List.mem_of_mem_take hc)
  have hback : ∀ c ∈ text.drop (text.length - places), c.isDigit := by
    intro c hc
    exact h c (List.mem_of_mem_drop hc)
  have hne : text.take (text.length - places) ≠ [] := by
    rw [← List.length_pos_iff, List.length_take]
    omega
  have hlength : (text.drop (text.length - places)).length = places := by
    rw [List.length_drop]
    omega
  have hpoint := denotes_point hne hfront hback
  rwa [List.take_append_drop, hlength] at hpoint

/-- The digits and the exponent of a decimal are laid out so that they are read back. -/
theorem denotes_positional (d : Nat) (k : Int) {whole : String}
    (hwhole : whole = "" ∨ whole = ".0") :
    Denotes (positional d k whole).toList (valueOf d k) := by
  have hrepr : 0 < (Nat.repr d).toList.length := by
    rw [Nat.toList_repr]
    exact Nat.length_toDigits_pos
  unfold positional
  dsimp only
  split
  · rename_i hk
    obtain ⟨n, rfl⟩ := Int.eq_ofNat_of_zero_le hk
    have hdigits := isDigit_padded d 0 n
    have hvalue := naturalOf_padded d 0 n
    rw [List.replicate_zero, List.nil_append] at hdigits hvalue
    have hne : (Nat.repr d).toList ++ List.replicate n '0' ≠ [] :=
      List.append_ne_nil_of_left_ne_nil (List.length_pos_iff.mp hrepr) _
    rw [String.toList_append, String.toList_ofList, Int.toNat_natCast]
    rcases hwhole with rfl | rfl
    · have hdenotes := denotes_digits hne hdigits
      rw [hvalue] at hdenotes
      simpa [valueOf] using hdenotes
    · have hzero : ∀ c ∈ ['0'], c.isDigit := by
        intro c hc
        rw [List.mem_singleton.mp hc]
        decide
      have hdenotes := denotes_point hne hdigits hzero
      have hscaled : valueOf (10 ^ 1 * (d * 10 ^ n)) (-(1 : Nat)) = valueOf d n := by
        simp only [valueOf, zpow_neg, zpow_natCast]
        push_cast
        field_simp
      have hnothing : naturalOf ['0'] = 0 := rfl
      rw [naturalOf_append, hvalue, hnothing, Nat.add_zero, List.length_singleton,
        hscaled] at hdenotes
      exact hdenotes
  · rename_i hk
    have hdigits := isDigit_padded d ((-k).toNat + 1 - (Nat.repr d).toList.length) 0
    have hvalue := naturalOf_padded d ((-k).toNat + 1 - (Nat.repr d).toList.length) 0
    rw [List.replicate_zero, List.append_nil] at hdigits hvalue
    have hlong : (-k).toNat < (List.replicate ((-k).toNat + 1 - (Nat.repr d).toList.length) '0' ++
        (Nat.repr d).toList).length := by
      rw [List.length_append, List.length_replicate]
      omega
    have hdenotes := denotes_split hdigits (-k).toNat hlong
    rw [hvalue, pow_zero, mul_one, Int.toNat_of_nonneg (by omega), neg_neg] at hdenotes
    have hdot : ".".toList = ['.'] := rfl
    simpa only [String.toList_append, String.toList_ofList, List.append_assoc, hdot,
      List.singleton_append] using hdenotes

/-- A digit has no case. -/
theorem toLower_of_isDigit {c : Char} (hc : c.isDigit) : c.toLower = c := by
  simp only [Char.isDigit, Bool.and_eq_true, decide_eq_true_eq, ge_iff_le,
    UInt32.le_iff_toNat_le] at hc
  unfold Char.toLower
  split
  · rename_i hupper
    simp only [ge_iff_le, UInt32.le_iff_toNat_le] at hupper
    have hnine : ('9'.val).toNat < 'A'.val.toNat := by decide
    omega
  · rfl

/-- A text that begins with a digit is no word for an infinite value. -/
theorem Denotes.unsigned? {text : List Char} {r : ℚ} (h : Denotes text r) :
    Decimal.unsigned? text = magnitude? text := by
  obtain ⟨c, rest, rfl, hc⟩ := h.starts
  have hword : ∀ first word, first.isDigit = false →
      String.ofList ((c :: rest).map Char.toLower) ≠ String.ofList (first :: word) := by
    intro first word hfirst heq
    have hlist := congrArg String.toList heq
    rw [String.toList_ofList, String.toList_ofList, List.map_cons, toLower_of_isDigit hc] at hlist
    injection hlist with hhead
    rw [hhead, hfirst] at hc
    cases hc
  unfold Decimal.unsigned?
  split
  · rename_i heq
    exact absurd heq (hword 'i' ['n', 'f'] (by decide))
  · rename_i heq
    exact absurd heq (hword 'i' "nfinity".toList (by decide))
  · rename_i heq
    exact absurd heq (hword 'n' ['a', 'n'] (by decide))
  · rfl

/-- A text that begins with a digit has no sign. -/
theorem Denotes.float? {text : String} {r : ℚ} (h : Denotes text.toList r) :
    Decimal.float? text = magnitude? text.toList := by
  obtain ⟨c, rest, htext, hc⟩ := h.starts
  rw [← h.unsigned?]
  unfold Decimal.float?
  split
  · rename_i heq
    rw [htext] at heq
    cases heq
    exact absurd hc (by decide)
  · rename_i heq
    rw [htext] at heq
    cases heq
    exact absurd hc (by decide)
  · rfl

/-- The sign of a float is put before its absolute value. -/
def signed (x y : Float32) : Float32 := if isNegative x then -y else y

/-- The text of a finite float, whatever stands after a whole number, reads as the decimal that
was written, with the sign of the float. -/
theorem float?_render (x : Float32) {whole : String} (hwhole : whole = "" ∨ whole = ".0")
    (hnan : x.isNaN = false) (hinf : x.isInf = false) :
    ∃ m e, float? (render x whole) = some (signed x (scientific m e)) ∧
      valueOf m e = valueOf (digits x).1 (digits x).2 := by
  have hdenotes := denotes_positional (digits x).1 (digits x).2 hwhole
  obtain ⟨m, e, hmagnitude, hvalue⟩ := hdenotes.reads
  refine ⟨m, e, ?_, hvalue⟩
  unfold render
  rw [if_neg (ne_true_of_eq_false hnan)]
  dsimp only
  rw [if_neg (ne_true_of_eq_false hinf)]
  unfold signed
  by_cases hsign : isNegative x
  · rw [if_pos hsign, if_pos hsign]
    have htext : ("-" ++ positional (digits x).1 (digits x).2 whole).toList =
        '-' :: (positional (digits x).1 (digits x).2 whole).toList := by
      rw [String.toList_append]
      rfl
    have hunsigned := hdenotes.unsigned?.trans hmagnitude
    unfold float?
    rw [htext]
    change (Decimal.unsigned? _).map (- ·) = _
    rw [hunsigned, Option.map_some]
  · rw [if_neg hsign, if_neg hsign, String.empty_append, hdenotes.float?, hmagnitude]

/-- Both notations of a finite float are read as the float nearest to a decimal that rounds to the
float that was written. -/
theorem float?_rounds (x : Float32) {text : String} (htext : text = plain x ∨ text = pointed x)
    (hnan : x.isNaN = false) (hinf : x.isInf = false) :
    ∃ m e, float? text = some (signed x (scientific m e)) ∧
      (Binary.ofFloat x).Attracts (valueOf m e) := by
  have hwritten : ∃ whole, (whole = "" ∨ whole = ".0") ∧ text = render x whole := by
    rcases htext with rfl | rfl
    · exact ⟨"", .inl rfl, rfl⟩
    · exact ⟨".0", .inr rfl, rfl⟩
  obtain ⟨whole, hwhole, rfl⟩ := hwritten
  obtain ⟨m, e, hread, hvalue⟩ := float?_render x hwhole hnan hinf
  refine ⟨m, e, hread, ?_⟩
  rw [hvalue]
  exact digits_attracts x

end OfficeMath.Decimal
