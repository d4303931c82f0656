import Mathlib.Algebra.Order.Field.Power
import Mathlib.Tactic.FieldSimp
import Mathlib.Tactic.Linarith
import Mathlib.Tactic.NormNum
import Mathlib.Tactic.Positivity
import Mathlib.Tactic.Ring
import OfficeMath.Decimal.Shortest

/-!
# The digits of a float are the shortest that round to it

`Decimal.digits` works on natural numbers only.  Here the float, the decimals and the interval of
the numbers that round to the float are rational numbers, and the digits are compared with these.

* `compareScaled_eq` — a comparison of naturals compares the numbers that they stand for;
* `isRoundedFrom_iff` — the test of a decimal asks whether the decimal lies in the interval;
* `isNearest_of_nearestAt?`, `not_attracts_of_nearestAt?` — trying the two multiples of a power of
  ten next to the float is enough, because the interval has no gaps and holds the float;
* `search_spec` — the search stops at the first power that has a multiple in the interval;
* `digits_isShortest` — the search does find one, and no coarser decimal lies in the interval.
-/

namespace OfficeMath.Decimal

/-- The number `d · 10 ^ k`. -/
def valueOf (d : Nat) (k : Int) : ℚ := d * 10 ^ k

namespace Binary

variable {x : Binary}

/-- The number `m · 2 ^ q`. -/
def value (x : Binary) : ℚ := x.m * 2 ^ x.q

/-- Half the gap to the next float above. -/
def above (x : Binary) : ℚ := 2 ^ x.q / 2

/-- Half the gap to the next float below. -/
def below (x : Binary) : ℚ := if x.powerOfTwo then 2 ^ x.q / 4 else 2 ^ x.q / 2

/-- A number that rounds to the float: it is nearer to it than to its neighbours, and a number
half way belongs to the float with the even `m`. -/
def Attracts (x : Binary) (r : ℚ) : Prop :=
  if x.m % 2 = 0 then x.value - x.below ≤ r ∧ r ≤ x.value + x.above
  else x.value - x.below < r ∧ r < x.value + x.above

/-- Among the multiples of `10 ^ k` that round to the float, `d · 10 ^ k` is the nearest to it, the
larger of two that are equally near. -/
structure IsNearest (x : Binary) (k : Int) (d : Nat) : Prop where
  rounds : x.Attracts (valueOf d k)
  nearest : ∀ d', x.Attracts (valueOf d' k) →
    |valueOf d k - x.value| ≤ |valueOf d' k - x.value|
  larger : ∀ d', x.Attracts (valueOf d' k) →
    |valueOf d' k - x.value| = |valueOf d k - x.value| → d' ≤ d

/-- The nearest multiple of `10 ^ k`, where no multiple of a larger power rounds to the float. -/
structure IsShortest (x : Binary) (d : Nat) (k : Int) : Prop extends x.IsNearest k d where
  coarser : ∀ d' k', k < k' → ¬x.Attracts (valueOf d' k')

/-- The gap above a float is not empty. -/
theorem above_pos (x : Binary) : 0 < x.above := by
  unfold above
  positivity

/-- The gap below a float is not empty. -/
theorem below_pos (x : Binary) : 0 < x.below := by
  unfold below
  split <;> positivity

/-- The gap below a float is never the larger one. -/
theorem below_le_above (x : Binary) : x.below ≤ x.above := by
  have hpos : (0 : ℚ) < 2 ^ x.q := by positivity
  unfold below above
  split <;> linarith

/-- The float itself rounds to it. -/
theorem attracts_value (x : Binary) : x.Attracts x.value := by
  have hbelow := x.below_pos
  have habove := x.above_pos
  unfold Attracts
  split <;> constructor <;> linarith

/-- The numbers that round to the float have no gap below the float. -/
theorem Attracts.of_le {r s : ℚ} (h : x.Attracts r) (hrs : r ≤ s) (hs : s ≤ x.value) :
    x.Attracts s := by
  have habove := x.above_pos
  unfold Attracts at h ⊢
  split at h
  · rename_i heven
    rw [if_pos heven]
    constructor <;> linarith [h.1]
  · rename_i hodd
    rw [if_neg hodd]
    constructor <;> linarith [h.1]

/-- The numbers that round to the float have no gap above the float. -/
theorem Attracts.of_ge {r s : ℚ} (h : x.Attracts r) (hs : x.value ≤ s) (hsr : s ≤ r) :
    x.Attracts s := by
  have hbelow := x.below_pos
  unfold Attracts at h ⊢
  split at h
  · rename_i heven
    rw [if_pos heven]
    constructor <;> linarith [h.2]
  · rename_i hodd
    rw [if_neg hodd]
    constructor <;> linarith [h.2]

/-- Nothing that rounds to the float is further from it than half a gap. -/
theorem Attracts.bounds {r : ℚ} (h : x.Attracts r) :
    x.value - x.above ≤ r ∧ r ≤ x.value + x.above := by
  have hle := x.below_le_above
  unfold Attracts at h
  split at h
  · constructor <;> linarith [h.1, h.2]
  · constructor <;> linarith [h.1, h.2]

end Binary

/-! ### Comparing through natural numbers -/

/-- A power with an integer exponent, once its denominator is cleared. -/
theorem zpow_mul_pow_neg {b : ℚ} (hb : b ≠ 0) (e : Int) :
    b ^ e * b ^ (-e).toNat = b ^ e.toNat := by
  rw [← zpow_natCast, ← zpow_natCast, ← zpow_add₀ hb]
  congr 1
  omega

/-- The two numbers that are compared stand for `a · 2 ^ q` and `b · 10 ^ k`, scaled alike. -/
theorem exists_scale (a : Nat) (q : Int) (b : Nat) (k : Int) : ∃ s : ℚ, 0 < s ∧
    ((a * Nat.pow 2 q.toNat * Nat.pow 10 (-k).toNat : Nat) : ℚ) = a * 2 ^ q * s ∧
    ((b * Nat.pow 10 k.toNat * Nat.pow 2 (-q).toNat : Nat) : ℚ) = valueOf b k * s := by
  refine ⟨2 ^ (-q).toNat * 10 ^ (-k).toNat, by positivity, ?_, ?_⟩
  · push_cast [Nat.pow_eq]
    rw [← zpow_mul_pow_neg (by norm_num : (2 : ℚ) ≠ 0) q]
    ring
  · push_cast [Nat.pow_eq]
    rw [valueOf, ← zpow_mul_pow_neg (by norm_num : (10 : ℚ) ≠ 0) k]
    ring

/-- Comparing the naturals compares the numbers that they stand for. -/
theorem compareScaled_eq (a : Nat) (q : Int) (b : Nat) (k : Int) :
    compareScaled a q b k = cmp ((a : ℚ) * 2 ^ q) (valueOf b k) := by
  obtain ⟨s, hs, hleft, hright⟩ := exists_scale a q b k
  calc compareScaled a q b k
      = cmp (a * Nat.pow 2 q.toNat * Nat.pow 10 (-k).toNat)
          (b * Nat.pow 10 k.toNat * Nat.pow 2 (-q).toNat) := (cmp_eq_compare _ _).symm
    _ = cmp (a * 2 ^ q * s) (valueOf b k * s) := by
        rw [← hleft, ← hright, Nat.strictMono_cast.cmp_map_eq]
    _ = cmp ((a : ℚ) * 2 ^ q) (valueOf b k) := (strictMono_mul_right_of_pos hs).cmp_map_eq _ _

/-- When the binary number is the smaller one. -/
theorem compareScaled_eq_lt (a : Nat) (q : Int) (b : Nat) (k : Int) :
    compareScaled a q b k = .lt ↔ (a : ℚ) * 2 ^ q < valueOf b k := by
  rw [compareScaled_eq, cmp_eq_lt_iff]

/-- When the binary number is the larger one. -/
theorem compareScaled_eq_gt (a : Nat) (q : Int) (b : Nat) (k : Int) :
    compareScaled a q b k = .gt ↔ valueOf b k < (a : ℚ) * 2 ^ q := by
  rw [compareScaled_eq, cmp_eq_gt_iff]

namespace Binary

variable {x : Binary}

/-- The test of a decimal asks whether the decimal rounds to the float. -/
theorem isRoundedFrom_iff (hm : 0 < x.m) (d : Nat) (k : Int) :
    x.isRoundedFrom d k = true ↔ x.Attracts (valueOf d k) := by
  have hquarter : (2 : ℚ) ^ (x.q - 2) = 2 ^ x.q / 4 := by
    rw [zpow_sub₀ (by norm_num : (2 : ℚ) ≠ 0)]
    norm_num
  have hlow : ((4 * x.m - if x.powerOfTwo then 1 else 2 : Nat) : ℚ) * 2 ^ (x.q - 2)
      = x.value - x.below := by
    rw [hquarter, value, below]
    split
    · rw [Nat.cast_sub (by omega)]
      push_cast
      ring
    · rw [Nat.cast_sub (by omega)]
      push_cast
      ring
  have hhigh : ((4 * x.m + 2 : Nat) : ℚ) * 2 ^ (x.q - 2) = x.value + x.above := by
    rw [hquarter, value, above]
    push_cast
    ring
  unfold isRoundedFrom Attracts
  dsimp only
  split
  · rw [Bool.and_eq_true, decide_eq_true_eq, decide_eq_true_eq, ne_eq, ne_eq,
      compareScaled_eq_gt, compareScaled_eq_lt, hlow, hhigh, not_lt, not_lt]
  · rw [Bool.and_eq_true, decide_eq_true_eq, decide_eq_true_eq, compareScaled_eq_lt,
      compareScaled_eq_gt, hlow, hhigh]

/-- The multiple of the power of ten below the float. -/
theorem valueOf_floorAt_le (x : Binary) (k : Int) : valueOf (x.floorAt k) k ≤ x.value := by
  obtain ⟨s, hs, hleft, hright⟩ := exists_scale x.m x.q (x.floorAt k) k
  have hdiv : x.floorAt k * Nat.pow 10 k.toNat * Nat.pow 2 (-x.q).toNat
      ≤ x.m * Nat.pow 2 x.q.toNat * Nat.pow 10 (-k).toNat := by
    rw [Nat.mul_assoc]
    exact Nat.div_mul_le_self _ _
  refine le_of_mul_le_mul_right ?_ hs
  rw [value, ← hleft, ← hright]
  exact_mod_cast hdiv

/-- The multiple of the power of ten above the float. -/
theorem lt_valueOf_floorAt_succ (x : Binary) (k : Int) :
    x.value < valueOf (x.floorAt k + 1) k := by
  obtain ⟨s, hs, hleft, hright⟩ := exists_scale x.m x.q (x.floorAt k + 1) k
  have hpos : 0 < Nat.pow 10 k.toNat * Nat.pow 2 (-x.q).toNat :=
    Nat.mul_pos (Nat.pow_pos (by decide)) (Nat.pow_pos (by decide))
  have hdiv : x.m * Nat.pow 2 x.q.toNat * Nat.pow 10 (-k).toNat
      < (x.floorAt k + 1) * Nat.pow 10 k.toNat * Nat.pow 2 (-x.q).toNat := by
    rw [Nat.mul_assoc (x.floorAt k + 1)]
    exact (Nat.div_lt_iff_lt_mul hpos).mp (Nat.lt_succ_self _)
  refine lt_of_mul_lt_mul_right ?_ hs.le
  rw [value, ← hleft, ← hright]
  exact_mod_cast hdiv

/-- More units of a power of ten make a larger number. -/
theorem valueOf_mono {d d' : Nat} (h : d ≤ d') (k : Int) : valueOf d k ≤ valueOf d' k := by
  unfold valueOf
  gcongr

/-- The multiple below the float is the one to take, if the one above is no decimal of the float
or lies further away. -/
theorem isNearest_floorAt {k : Int} (h : x.Attracts (valueOf (x.floorAt k) k))
    (hnext : x.Attracts (valueOf (x.floorAt k + 1) k) →
      x.value - valueOf (x.floorAt k) k < valueOf (x.floorAt k + 1) k - x.value) :
    x.IsNearest k (x.floorAt k) := by
  have hfloor := x.valueOf_floorAt_le k
  have hsucc := x.lt_valueOf_floorAt_succ k
  have habove : ∀ d', x.floorAt k < d' → x.Attracts (valueOf d' k) →
      |valueOf (x.floorAt k) k - x.value| < |valueOf d' k - x.value| := by
    intro d' hlt hd'
    have hmono : valueOf (x.floorAt k + 1) k ≤ valueOf d' k := valueOf_mono hlt k
    have hfar := hnext (hd'.of_ge hsucc.le hmono)
    rw [abs_of_nonpos (by linarith), abs_of_pos (by linarith)]
    linarith
  refine ⟨h, fun d' hd' => ?_, fun d' hd' heq => ?_⟩
  · rcases Nat.lt_or_ge (x.floorAt k) d' with hlt | hge
    · exact (habove d' hlt hd').le
    · have hmono : valueOf d' k ≤ valueOf (x.floorAt k) k := valueOf_mono hge k
      rw [abs_of_nonpos (by linarith), abs_of_nonpos (by linarith)]
      linarith
  · by_contra hlt
    exact absurd heq (habove d' (by omega) hd').ne'

/-- The multiple above the float is the one to take, if the one below is no decimal of the float
or is not nearer. -/
theorem isNearest_floorAt_succ {k : Int} (h : x.Attracts (valueOf (x.floorAt k + 1) k))
    (hbelow : x.Attracts (valueOf (x.floorAt k) k) →
      valueOf (x.floorAt k + 1) k - x.value ≤ x.value - valueOf (x.floorAt k) k) :
    x.IsNearest k (x.floorAt k + 1) := by
  have hfloor := x.valueOf_floorAt_le k
  have hsucc := x.lt_valueOf_floorAt_succ k
  refine ⟨h, fun d' hd' => ?_, fun d' hd' heq => ?_⟩
  · rcases Nat.lt_or_ge (x.floorAt k) d' with hlt | hge
    · have hmono : valueOf (x.floorAt k + 1) k ≤ valueOf d' k := valueOf_mono hlt k
      rw [abs_of_pos (by linarith), abs_of_pos (by linarith)]
      linarith
    · have hmono : valueOf d' k ≤ valueOf (x.floorAt k) k := valueOf_mono hge k
      have hfar := hbelow (hd'.of_le hmono hfloor)
      rw [abs_of_pos (by linarith), abs_of_nonpos (by linarith)]
      linarith
  · by_contra hlt
    have hmono : valueOf (x.floorAt k + 1) k < valueOf d' k := by
      unfold valueOf
      gcongr
      omega
    rw [abs_of_pos (by linarith), abs_of_pos (by linarith)] at heq
    linarith

/-- The float is compared with the middle between two multiples. -/
theorem nearer_floorAt_iff (x : Binary) (k : Int) (d : Nat) :
    compareScaled (2 * x.m) x.q (2 * d + 1) k = .lt ↔
      x.value - valueOf d k < valueOf (d + 1) k - x.value := by
  have hleft : ((2 * x.m : Nat) : ℚ) * 2 ^ x.q = 2 * x.value := by
    rw [value]
    push_cast
    ring
  have hright : valueOf (2 * d + 1) k = valueOf d k + valueOf (d + 1) k := by
    simp only [valueOf]
    push_cast
    ring
  rw [compareScaled_eq_lt, hleft, hright]
  constructor
  · intro h
    linarith
  · intro h
    linarith

/-- What is found at a power of ten is the nearest of its multiples. -/
theorem isNearest_of_nearestAt? (hm : 0 < x.m) {k : Int} {d : Nat} (h : x.nearestAt? k = some d) :
    x.IsNearest k d := by
  have hiff := isRoundedFrom_iff hm (k := k)
  unfold nearestAt? at h
  dsimp only at h
  split at h
  case h_1 => cases h
  case h_2 hfloor hsucc =>
    cases h
    refine isNearest_floorAt ((hiff _).mp hfloor) fun hnext => ?_
    rw [(hiff _).mpr hnext] at hsucc
    cases hsucc
  case h_3 hfloor hsucc =>
    cases h
    refine isNearest_floorAt_succ ((hiff _).mp hsucc) fun hbelow => ?_
    rw [(hiff _).mpr hbelow] at hfloor
    cases hfloor
  case h_4 hfloor hsucc =>
    split at h
    · rename_i hmiddle
      cases h
      exact isNearest_floorAt ((hiff _).mp hfloor) fun _ => (nearer_floorAt_iff x k _).mp hmiddle
    · rename_i hmiddle
      cases h
      exact isNearest_floorAt_succ ((hiff _).mp hsucc) fun _ =>
        not_lt.mp (mt (nearer_floorAt_iff x k _).mpr hmiddle)

/-- Where nothing is found, no multiple of the power of ten rounds to the float. -/
theorem not_attracts_of_nearestAt? (hm : 0 < x.m) {k : Int} (h : x.nearestAt? k = none) (d : Nat) :
    ¬x.Attracts (valueOf d k) := by
  have hiff := isRoundedFrom_iff hm (k := k)
  unfold nearestAt? at h
  dsimp only at h
  split at h
  case h_1 hfloor hsucc =>
    intro hd
    rcases Nat.lt_or_ge (x.floorAt k) d with hlt | hge
    · have hnext := hd.of_ge (x.lt_valueOf_floorAt_succ k).le (valueOf_mono hlt k)
      rw [(hiff _).mpr hnext] at hsucc
      cases hsucc
    · have hbelow := hd.of_le (valueOf_mono hge k) (x.valueOf_floorAt_le k)
      rw [(hiff _).mpr hbelow] at hfloor
      cases hfloor
  case h_2 => cases h
  case h_3 => cases h
  case h_4 =>
    split at h
    · cases h
    · cases h

end Binary

/-- The search stops at the first power of ten that has a multiple of the float, if it comes to
one. -/
theorem search_spec {x : Binary} (hm : 0 < x.m) {k : Int} {steps : Nat}
    (h : ∃ j < steps, ∃ d, x.Attracts (valueOf d (k - j))) :
    x.IsNearest (search x k steps).2 (search x k steps).1 ∧
      ∀ d' k', (search x k steps).2 < k' → k' ≤ k → ¬x.Attracts (valueOf d' k') := by
  induction steps generalizing k with
  | zero =>
    obtain ⟨j, hj, -⟩ := h
    exact absurd hj (Nat.not_lt_zero j)
  | succ steps ih =>
    unfold search
    split
    · rename_i d hfound
      refine ⟨Binary.isNearest_of_nearestAt? hm hfound, fun d' k' hlt hle => ?_⟩
      exact absurd hlt (not_lt.mpr hle)
    · rename_i hnone
      have hhere := Binary.not_attracts_of_nearestAt? hm hnone
      have hbelow : ∃ j < steps, ∃ d, x.Attracts (valueOf d (k - 1 - j)) := by
        obtain ⟨j, hj, d, hd⟩ := h
        cases j with
        | zero => exact absurd (by simpa using hd) (hhere d)
        | succ j =>
          refine ⟨j, by omega, d, ?_⟩
          rwa [show k - 1 - (j : Int) = k - ((j + 1 : Nat) : Int) by push_cast; ring]
      obtain ⟨hnearest, hcoarser⟩ := ih hbelow
      refine ⟨hnearest, fun d' k' hlt hle => ?_⟩
      rcases eq_or_lt_of_le hle with rfl | hless
      · exact hhere d'
      · exact hcoarser d' k' hlt (by omega)

/-! ### The range of the floats -/

/-- The fields of a float are in their ranges. -/
theorem Binary.ofFloat_ranges (x : Float32) :
    (Binary.ofFloat x).m < 2 ^ 24 ∧ -149 ≤ (Binary.ofFloat x).q ∧ (Binary.ofFloat x).q ≤ 105 := by
  have hfraction : x.toBits.toNat % 0x800000 < 0x800000 := Nat.mod_lt _ (by decide)
  have hexponent : x.toBits.toNat / 0x800000 % 0x100 < 0x100 := Nat.mod_lt _ (by decide)
  unfold Binary.ofFloat
  dsimp only
  split
  · dsimp only
    omega
  · dsimp only
    omega

/-- A float whose lowest bit is not below `2 ^ -n` is a multiple of `10 ^ -n`. -/
theorem Binary.exists_valueOf_eq {x : Binary} {n : Nat} (hq : -(n : Int) ≤ x.q) :
    ∃ d, valueOf d (-n) = x.value := by
  refine ⟨x.m * 2 ^ (x.q + n).toNat * 5 ^ n, ?_⟩
  have hpow : (2 : ℚ) ^ (x.q + n).toNat = 2 ^ x.q * 2 ^ n := by
    rw [← zpow_natCast, ← zpow_natCast, ← zpow_add₀ (by norm_num)]
    congr 1
    omega
  have hten : (10 : ℚ) ^ (-n : Int) = (2 ^ n * 5 ^ n)⁻¹ := by
    rw [zpow_neg, zpow_natCast, ← mul_pow]
    norm_num
  rw [valueOf, Binary.value, hten]
  push_cast
  rw [hpow]
  field_simp

/-- No decimal with an exponent above 39 rounds to a float. -/
theorem Binary.not_attracts_of_large {x : Binary} (hm : 0 < x.m) (hm' : x.m < 2 ^ 24)
    (hq : x.q ≤ 105) (d : Nat) {k : Int} (hk : 39 ≤ k) : ¬x.Attracts (valueOf d k) := by
  intro h
  obtain ⟨hlow, hhigh⟩ := h.bounds
  have hpos : (0 : ℚ) < 2 ^ x.q := by positivity
  have hone : (1 : ℚ) ≤ x.m := by exact_mod_cast hm
  have hmost : (x.m : ℚ) + 1 ≤ 2 ^ 24 := by exact_mod_cast hm'
  have hgap : (2 : ℚ) ^ x.q ≤ 2 ^ (105 : Int) := zpow_le_zpow_right₀ (by norm_num) hq
  rw [Binary.value, Binary.above] at hlow hhigh
  have hd : d ≠ 0 := by
    rintro rfl
    rw [valueOf, Nat.cast_zero, zero_mul] at hlow
    nlinarith
  have hlarge : (10 : ℚ) ^ (39 : Int) ≤ valueOf d k := by
    have hstep : (10 : ℚ) ^ (39 : Int) ≤ 10 ^ k := zpow_le_zpow_right₀ (by norm_num) hk
    have hd' : (1 : ℚ) ≤ d := by exact_mod_cast Nat.one_le_iff_ne_zero.mpr hd
    rw [valueOf]
    nlinarith
  have hsmall : (x.m : ℚ) * 2 ^ x.q + 2 ^ x.q / 2 < 10 ^ (39 : Int) := by
    calc (x.m : ℚ) * 2 ^ x.q + 2 ^ x.q / 2
        ≤ (x.m + 1) * 2 ^ x.q := by linarith
      _ ≤ 2 ^ 24 * 2 ^ (105 : Int) := by gcongr
      _ < 10 ^ (39 : Int) := by norm_num
  linarith

/-- The digits of a float are the shortest that round to it. -/
theorem digits_isShortest (x : Float32) (hx : (Binary.ofFloat x).m ≠ 0) :
    (Binary.ofFloat x).IsShortest (digits x).1 (digits x).2 := by
  obtain ⟨hm', hq, hq'⟩ := Binary.ofFloat_ranges x
  have hm : 0 < (Binary.ofFloat x).m := Nat.pos_of_ne_zero hx
  have hexact : ∃ j < 200, ∃ d, (Binary.ofFloat x).Attracts (valueOf d (39 - (j : Nat))) := by
    obtain ⟨d, hd⟩ := Binary.exists_valueOf_eq (n := 149) hq
    refine ⟨188, by decide, d, ?_⟩
    rw [show (39 - ((188 : Nat) : Int)) = -(149 : Nat) by norm_num, hd]
    exact (Binary.ofFloat x).attracts_value
  have hdigits : digits x = search (Binary.ofFloat x) 39 200 := by
    unfold digits
    exact if_neg hx
  obtain ⟨hnearest, hcoarser⟩ := search_spec hm hexact
  rw [hdigits]
  refine ⟨hnearest, fun d' k' hlt => ?_⟩
  rcases le_or_gt k' 39 with hle | hgt
  · exact hcoarser d' k' hlt hle
  · exact Binary.not_attracts_of_large hm hm' hq' d' hgt.le

/-- The digits of a float round to it, also those of zero. -/
theorem digits_attracts (x : Float32) :
    (Binary.ofFloat x).Attracts (valueOf (digits x).1 (digits x).2) := by
  by_cases hm : (Binary.ofFloat x).m = 0
  · have hdigits : digits x = (0, 0) := by
      unfold digits
      exact if_pos hm
    have hzero : valueOf 0 0 = (Binary.ofFloat x).value := by
      rw [Binary.value, hm, valueOf]
      simp
    rw [hdigits, hzero]
    exact (Binary.ofFloat x).attracts_value
  · exact (digits_isShortest x hm).rounds

end OfficeMath.Decimal
