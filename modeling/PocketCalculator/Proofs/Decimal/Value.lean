import Mathlib.Algebra.Order.Field.Power
import Mathlib.Data.Rat.Floor
import Mathlib.Tactic.FieldSimp
import Mathlib.Tactic.Linarith
import Mathlib.Tactic.LinearCombination
import Mathlib.Tactic.NormNum
import Mathlib.Tactic.Positivity
import Mathlib.Tactic.Ring
import PocketCalculator.Decimal.Sum

/-!
# The value of a decimal

A decimal stands for a rational number. The exact operations on decimals are those of the rationals.
-/

namespace PocketCalculator

namespace Decimal

def magnitude (x : Decimal) : ℚ := x.coefficient * 10 ^ x.exponent

/-- The number that a decimal stands for. -/
def toRat (x : Decimal) : ℚ := if x.negative then -x.magnitude else x.magnitude

/-! ### Magnitudes -/

theorem magnitude_nonneg (x : Decimal) : 0 ≤ x.magnitude := by
  unfold magnitude
  positivity

theorem abs_toRat (x : Decimal) : |x.toRat| = x.magnitude := by
  unfold toRat
  split
  · rw [abs_neg, abs_of_nonneg x.magnitude_nonneg]
  · exact abs_of_nonneg x.magnitude_nonneg

theorem magnitude_eq_zero (x : Decimal) : x.magnitude = 0 ↔ x.coefficient = 0 := by
  have hpow : (10 : ℚ) ^ x.exponent ≠ 0 := by positivity
  unfold magnitude
  constructor
  · intro h
    exact_mod_cast (mul_eq_zero.mp h).resolve_right hpow
  · intro h
    simp [h]

theorem toRat_eq_zero (x : Decimal) : x.toRat = 0 ↔ x.coefficient = 0 := by
  rw [← abs_eq_zero, abs_toRat, magnitude_eq_zero]

theorem isZero_iff (x : Decimal) : x.isZero = true ↔ x.toRat = 0 := by
  rw [toRat_eq_zero, isZero, beq_iff_eq]

theorem isZero_eq_false (x : Decimal) : x.isZero = false ↔ x.toRat ≠ 0 := by
  rw [← Bool.not_eq_true, isZero_iff]

theorem toRat_neg_iff (x : Decimal) : x.toRat < 0 ↔ x.negative = true ∧ x.isZero = false := by
  have hmagnitude := x.magnitude_nonneg
  unfold toRat
  cases hnegative : x.negative with
  | false => simpa using hmagnitude
  | true =>
    rw [if_pos rfl, neg_lt_zero, hmagnitude.lt_iff_ne', ne_eq, magnitude_eq_zero]
    simp [isZero]

theorem ten_zpow_add_toNat {e e' : ℤ} (h : e ≤ e') :
    (10 : ℚ) ^ e' = 10 ^ (e' - e).toNat * 10 ^ e := by
  rw [← zpow_natCast, Int.toNat_of_nonneg (by omega), ← zpow_add₀ (by norm_num)]
  congr 1
  omega

/-- The magnitude is the number of units of a smaller power of ten. -/
theorem coefficientAt_mul (x : Decimal) {e : ℤ} (h : e ≤ x.exponent) :
    (x.coefficientAt e : ℚ) * 10 ^ e = x.magnitude := by
  rw [coefficientAt_eq, magnitude, ten_zpow_add_toNat h]
  push_cast
  ring

theorem valueAt_mul (x : Decimal) {e : ℤ} (h : e ≤ x.exponent) :
    (x.valueAt e : ℚ) * 10 ^ e = x.toRat := by
  unfold valueAt toRat
  split
  · push_cast
    rw [neg_mul, x.coefficientAt_mul h]
  · exact_mod_cast x.coefficientAt_mul h

theorem magnitude_lt (x : Decimal) : x.magnitude < 10 ^ (x.adjusted + 1) := by
  have hlt : (x.coefficient : ℚ) < 10 ^ (x.digits : ℤ) := by
    rw [zpow_natCast]
    exact_mod_cast x.coefficient_lt
  have hpow : (10 : ℚ) ^ (x.adjusted + 1) = 10 ^ (x.digits : ℤ) * 10 ^ x.exponent := by
    rw [← zpow_add₀ (by norm_num)]
    congr 1
    simp only [adjusted]
    omega
  rw [hpow]
  exact mul_lt_mul_of_pos_right hlt (by positivity)

theorem le_magnitude {x : Decimal} (h : x.isZero = false) : 10 ^ x.adjusted ≤ x.magnitude := by
  have hdigits := x.digits_pos
  have hle : (10 : ℚ) ^ ((x.digits - 1 : ℕ) : ℤ) ≤ x.coefficient := by
    rw [zpow_natCast]
    exact_mod_cast ten_pow_le_of_pos (coefficient_pos h)
  have hpow : (10 : ℚ) ^ x.adjusted = 10 ^ ((x.digits - 1 : ℕ) : ℤ) * 10 ^ x.exponent := by
    rw [← zpow_add₀ (by norm_num)]
    congr 1
    simp only [adjusted]
    omega
  rw [hpow]
  exact mul_le_mul_of_nonneg_right hle (by positivity)

theorem lt_of_ten_zpow_lt {m n : ℤ} (h : (10 : ℚ) ^ m < 10 ^ n) : m < n :=
  (zpow_lt_zpow_iff_right₀ (by norm_num)).mp h

/-- Comparing decimals is comparing their magnitudes. -/
theorem exceeds_iff_lt (x y : Decimal) : x.exceeds y = true ↔ y.magnitude < x.magnitude := by
  have hx := Int.min_le_left x.exponent y.exponent
  have hy := Int.min_le_right x.exponent y.exponent
  have hpow : (0 : ℚ) < 10 ^ min x.exponent y.exponent := by positivity
  rw [exceeds_iff, ← x.coefficientAt_mul hx, ← y.coefficientAt_mul hy,
    mul_lt_mul_iff_of_pos_right hpow, Nat.cast_lt]

/-! ### Exact operations -/

theorem toRat_flip (x : Decimal) : x.flip.toRat = -x.toRat := by
  have hmagnitude : x.flip.magnitude = x.magnitude := rfl
  have hnegative : x.flip.negative = !x.negative := rfl
  unfold toRat
  rw [hmagnitude, hnegative]
  cases x.negative <;> simp

theorem toRat_abs_of_isZero {x : Decimal} (h : x.isZero = true) : x.abs.toRat = x.toRat := by
  have hzero : x.coefficient = 0 := (toRat_eq_zero x).mp ((isZero_iff x).mp h)
  rw [(toRat_eq_zero x).mpr hzero, (toRat_eq_zero x.abs).mpr hzero]

theorem toRat_unsigned_zero (x : Decimal) : (if x.isZero then x.abs else x).toRat = x.toRat := by
  split
  · next hzero => exact toRat_abs_of_isZero hzero
  · rfl

theorem unsigned_zero_eq {x : Decimal} (h : x.isZero = true → x.negative = false) :
    (if x.isZero then x.abs else x) = x := by
  split
  · next hzero => rw [abs, ← h hzero]
  · rfl

theorem toRat_add (x y : Decimal) : (x.add y).toRat = x.toRat + y.toRat := by
  have hx := x.valueAt_mul (Int.min_le_left x.exponent y.exponent)
  have hy := y.valueAt_mul (Int.min_le_right x.exponent y.exponent)
  rw [← hx, ← hy, ← add_mul]
  simp only [add]
  generalize min x.exponent y.exponent = e
  generalize x.valueAt e = a
  generalize y.valueAt e = b
  split
  · next h =>
    have hsum : (a : ℚ) + b = 0 := by exact_mod_cast h
    rw [hsum, zero_mul, toRat_eq_zero]
  · next h =>
    simp only [toRat, magnitude, decide_eq_true_eq]
    split
    · next hneg =>
      have habs : ((a + b).natAbs : ℚ) = -(a + b) := by
        rw [Nat.cast_natAbs, abs_of_neg hneg]
        push_cast
        ring
      rw [habs]
      ring
    · next hneg =>
      have habs : ((a + b).natAbs : ℚ) = a + b := by
        rw [Nat.cast_natAbs, abs_of_nonneg (by omega)]
        push_cast
        ring
      rw [habs]

theorem magnitude_mul (x y : Decimal) : (x.mul y).magnitude = x.magnitude * y.magnitude := by
  simp only [magnitude, mul, Nat.cast_mul, zpow_add₀ (by norm_num : (10 : ℚ) ≠ 0)]
  ring

theorem toRat_mul (x y : Decimal) : (x.mul y).toRat = x.toRat * y.toRat := by
  have hnegative : (x.mul y).negative = (x.negative != y.negative) := rfl
  unfold toRat
  rw [magnitude_mul, hnegative]
  cases x.negative <;> cases y.negative <;> simp

end Decimal

/-- The integer next to `q` in the direction of zero. -/
def truncate (q : ℚ) : ℤ := if 0 ≤ q then ⌊q⌋ else ⌈q⌉

theorem truncate_neg (q : ℚ) : truncate (-q) = -truncate q := by
  unfold truncate
  rcases lt_trichotomy q 0 with h | h | h
  · rw [if_pos (by linarith), if_neg (by linarith), Int.floor_neg]
  · simp [h]
  · rw [if_neg (by linarith), if_pos (by linarith), Int.ceil_neg]

theorem truncate_natCast_div (m n : ℕ) : truncate ((m : ℚ) / n) = (m / n : ℕ) := by
  rw [truncate, if_pos (by positivity), Rat.floor_natCast_div_natCast, Int.natCast_ediv]

namespace Decimal

theorem truncate_magnitude_div {x y : Decimal} {e : ℤ} (hx : e ≤ x.exponent)
    (hy : e ≤ y.exponent) :
    truncate (x.magnitude / y.magnitude) = (x.coefficientAt e / y.coefficientAt e : ℕ) := by
  have hpow : (10 : ℚ) ^ e ≠ 0 := by positivity
  rw [← truncate_natCast_div, ← x.coefficientAt_mul hx, ← y.coefficientAt_mul hy,
    mul_div_mul_right _ _ hpow]

theorem exponent_rem (x y : Decimal) : (x.rem y).exponent = min x.exponent y.exponent := by
  simp only [rem]
  split <;> rfl

theorem negative_rem (x y : Decimal) : (x.rem y).negative = x.negative := by
  simp only [rem]
  split <;> rfl

theorem magnitude_rem {x y : Decimal} (h : y.isZero = false) :
    (x.rem y).magnitude =
      x.magnitude - y.magnitude * truncate (x.magnitude / y.magnitude) := by
  have hx := Int.min_le_left x.exponent y.exponent
  have hy := Int.min_le_right x.exponent y.exponent
  rw [magnitude, rem_coefficient x y h, exponent_rem, truncate_magnitude_div hx hy,
    ← x.coefficientAt_mul hx, ← y.coefficientAt_mul hy]
  generalize x.coefficientAt (min x.exponent y.exponent) = a
  generalize y.coefficientAt (min x.exponent y.exponent) = b
  have hdiv : (a : ℚ) = b * (a / b : ℕ) + (a % b : ℕ) := by
    exact_mod_cast (Nat.div_add_mod a b).symm
  rw [Int.cast_natCast]
  linear_combination (-(10 : ℚ) ^ min x.exponent y.exponent) * hdiv

/-- The remainder leaves a multiple that is cut toward zero. -/
theorem toRat_rem {x y : Decimal} (h : y.isZero = false) :
    (x.rem y).toRat = x.toRat - y.toRat * truncate (x.toRat / y.toRat) := by
  have hmagnitude := magnitude_rem h (x := x)
  unfold toRat
  rw [negative_rem, hmagnitude]
  cases x.negative <;> cases y.negative <;>
    simp only [Bool.false_eq_true, if_true, if_false, neg_div, div_neg, truncate_neg, neg_neg,
      Int.cast_neg] <;> ring

theorem magnitude_rem_lt {x y : Decimal} (h : y.isZero = false) :
    (x.rem y).magnitude < y.magnitude := by
  have hy := Int.min_le_right x.exponent y.exponent
  have hpos : 0 < y.coefficientAt (min x.exponent y.exponent) := by
    rw [coefficientAt_eq]
    exact Nat.mul_pos (coefficient_pos h) (Nat.pow_pos (by decide))
  rw [magnitude, rem_coefficient x y h, exponent_rem, ← y.coefficientAt_mul hy]
  exact mul_lt_mul_of_pos_right (by exact_mod_cast Nat.mod_lt _ hpos) (by positivity)

theorem toRat_stripZeros (limit : ℤ) (x : Decimal) :
    (Context.stripZeros limit x).toRat = x.toRat := by
  fun_induction Context.stripZeros limit x with
  | case1 x h ih =>
    rw [ih]
    have hten : (x.coefficient : ℚ) = 10 * (x.coefficient / 10 : ℕ) := by
      exact_mod_cast (Nat.mul_div_cancel' (Nat.dvd_of_mod_eq_zero h.2.1)).symm
    simp only [toRat, magnitude]
    rw [hten, zpow_add_one₀ (by norm_num)]
    ring_nf
  | case2 x h => rfl

end Decimal

end PocketCalculator
