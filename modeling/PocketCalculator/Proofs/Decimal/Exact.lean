import Mathlib.Data.Nat.Cast.Field
import PocketCalculator.Expression.Operation
import PocketCalculator.Proofs.Decimal.Rounded
import PocketCalculator.Proofs.Decimal.Value

/-!
# Exact results

A rational that the calculator can represent is not changed by rounding. So an operation whose exact
result is representable gives this result.
-/

namespace PocketCalculator

/-- A number that the calculator represents: zero, or one of at most 28 significant digits whose
magnitude lies between the smallest number of full precision and the largest one. -/
def Representable (q : ℚ) : Prop :=
  q = 0 ∨ (∃ (c : ℕ) (e : ℤ), c < 10 ^ 28 ∧ |q| = c * 10 ^ e) ∧
    (10 : ℚ) ^ Context.minExponent ≤ |q| ∧ |q| ≤ largest.magnitude

theorem representable_neg {q : ℚ} (h : Representable q) : Representable (-q) := by
  unfold Representable
  rw [neg_eq_zero, abs_neg]
  exact h

theorem largest_coefficient_lt : largest.coefficient < 10 ^ 309 := by
  decide +kernel

theorem largest_magnitude_eq : largest.magnitude = largest.coefficient := by
  simp only [Decimal.magnitude, largest, Decimal.ofNat, zpow_zero, mul_one]

theorem largest_magnitude_lt : largest.magnitude < 10 ^ (309 : ℤ) := by
  have hpow : (10 : ℚ) ^ (309 : ℤ) = ((10 ^ 309 : ℕ) : ℚ) := by
    rw [Nat.cast_pow]
    rfl
  rw [largest_magnitude_eq, hpow]
  exact Nat.cast_lt.mpr largest_coefficient_lt

namespace Decimal

variable {c : Context} {x : Decimal}

/-- A decimal of few digits, and not too small or too large, is a number that is represented. -/
theorem representable_toRat (hdigits : x.digits ≤ 28) (hexponent : Context.minExponent ≤ x.exponent)
    (hmagnitude : x.magnitude ≤ largest.magnitude) : Representable x.toRat := by
  rcases Nat.eq_zero_or_pos x.coefficient with hzero | hpos
  · exact Or.inl ((toRat_eq_zero x).mpr hzero)
  right
  rw [abs_toRat]
  refine ⟨⟨x.coefficient, x.exponent, ?_, rfl⟩, ?_, hmagnitude⟩
  · exact Nat.lt_of_lt_of_le x.coefficient_lt (Nat.pow_le_pow_right (by decide) hdigits)
  · have hone : (1 : ℚ) ≤ x.coefficient := by exact_mod_cast hpos
    calc (10 : ℚ) ^ Context.minExponent ≤ 10 ^ x.exponent :=
          zpow_le_zpow_right₀ (by norm_num) hexponent
      _ ≤ x.coefficient * 10 ^ x.exponent := le_mul_of_one_le_left (by positivity) hone

theorem coefficient_eq_of_magnitude_eq {k : ℕ} {e : ℤ} (he : x.exponent ≤ e)
    (h : x.magnitude = k * 10 ^ e) : x.coefficient = k * 10 ^ (e - x.exponent).toNat := by
  have hpow : (10 : ℚ) ^ x.exponent ≠ 0 := by positivity
  rw [magnitude, ten_zpow_add_toNat he, ← mul_assoc] at h
  exact_mod_cast mul_right_cancel₀ hpow h

/-- The place where a representable number is rounded is 28 digits below its first digit, or
further. -/
theorem ten_zpow_targetExponent_le (hp : 28 ≤ c.precision) (hx : x.isZero = false)
    (hmin : (10 : ℚ) ^ Context.minExponent ≤ x.magnitude)
    (hlt : x.exponent < c.targetExponent x) :
    (10 : ℚ) ^ (c.targetExponent x + 27) ≤ x.magnitude := by
  have hle : c.targetExponent x + 27 ≤ max x.adjusted Context.minExponent := by
    simp only [Context.targetExponent, Context.finestExponent] at hlt ⊢
    omega
  rcases le_max_iff.mp hle with h | h
  · exact (zpow_le_zpow_right₀ (by norm_num) h).trans (le_magnitude hx)
  · exact (zpow_le_zpow_right₀ (by norm_num) h).trans hmin

/-- A representable number has no digits below the place where it is rounded. -/
theorem magnitude_toExponent (hp : 28 ≤ c.precision) (hx : x.isZero = false)
    (h : Representable x.toRat) :
    (x.toExponent c.ties (c.targetExponent x)).magnitude = x.magnitude := by
  rcases Int.lt_or_eq_of_le (c.exponent_le_targetExponent x) with hlt | heq
  · obtain hzero | ⟨⟨k, e, hk, hmagnitude⟩, hmin, _⟩ := h
    · exact absurd hzero ((isZero_eq_false x).mp hx)
    rw [abs_toRat] at hmagnitude hmin
    have hlow := ten_zpow_targetExponent_le hp hx hmin hlt
    generalize c.targetExponent x = t at hlt hlow ⊢
    have hte : t ≤ e := by
      have hkq : (k : ℚ) < 10 ^ (28 : ℤ) := by exact_mod_cast hk
      have hpow : (10 : ℚ) ^ (t + 27) < 10 ^ (28 + e) := by
        rw [zpow_add₀ (by norm_num) 28 e]
        exact (hlow.trans_eq hmagnitude).trans_lt (mul_lt_mul_of_pos_right hkq (by positivity))
      have := lt_of_ten_zpow_lt hpow
      omega
    have hcoefficient := coefficient_eq_of_magnitude_eq (by omega) hmagnitude
    have hsplit :
        10 ^ (e - x.exponent).toNat = 10 ^ (e - t).toNat * 10 ^ (t - x.exponent).toNat := by
      rw [← pow_add]
      congr 1
      omega
    have hdvd : x.coefficient % 10 ^ (t - x.exponent).toNat = 0 := by
      rw [hcoefficient, hsplit, ← mul_assoc]
      exact Nat.mul_mod_left ..
    rw [toExponent_of_lt c.ties hlt]
    simp only [magnitude]
    rw [nearest_of_dvd c.ties _ _ (Nat.pow_pos (by decide)) hdvd, ten_zpow_add_toNat (le_of_lt hlt),
      ← mul_assoc]
    congr 1
    exact_mod_cast Nat.div_mul_cancel (Nat.dvd_of_mod_eq_zero hdvd)
  · rw [← heq, toExponent_self]

theorem digits_le_of_magnitude_lt {k : ℕ} (hk : 0 < k) (h : x.magnitude < 10 ^ (x.exponent + k)) :
    x.digits ≤ k := by
  refine digitCount_le hk ?_
  rw [magnitude, zpow_add₀ (by norm_num), mul_comm ((10 : ℚ) ^ x.exponent)] at h
  have hlt := lt_of_mul_lt_mul_right h (by positivity)
  rw [zpow_natCast] at hlt
  exact_mod_cast hlt

end Decimal

namespace Context

variable {c : Context} {x y : Decimal}

theorem toRat_of_round_isZero (hx : x.isZero = true) (h : c.round x = .ok y) :
    y.toRat = x.toRat := by
  rw [(Decimal.isZero_iff x).mp hx, (Decimal.isZero_iff y).mp (isZero_of_round hx h)]

/-- Rounding does not change a representable number. -/
theorem exists_round_of_representable (hp : 28 ≤ c.precision) (h : Representable x.toRat) :
    ∃ y, c.round x = .ok y ∧ y.toRat = x.toRat := by
  cases hx : x.isZero with
  | true =>
    have hround : c.round x =
        .ok { x with exponent := max c.finestExponent (min x.exponent maxExponent) } := if_pos hx
    exact ⟨_, hround, toRat_of_round_isZero hx hround⟩
  | false =>
    have hmagnitude := Decimal.magnitude_toExponent hp hx h
    have hexponent := Decimal.toExponent_exponent c.ties x (c.targetExponent x)
    have hnegative := Decimal.negative_toExponent c.ties x (c.targetExponent x)
    obtain hzero | ⟨_, _, hmax⟩ := h
    · exact absurd hzero ((Decimal.isZero_eq_false x).mp hx)
    rw [Decimal.abs_toRat] at hmax
    have htarget : x.adjusted + 1 ≤ c.targetExponent x + c.precision := by
      simp only [targetExponent]
      omega
    unfold round
    rw [if_neg (by simp [hx])]
    generalize x.toExponent c.ties (c.targetExponent x) = z at hmagnitude hexponent hnegative
    have hdigits : z.digits ≤ c.precision := by
      refine Decimal.digits_le_of_magnitude_lt (by omega) ?_
      rw [hmagnitude, hexponent]
      exact x.magnitude_lt.trans_le (zpow_le_zpow_right₀ (by norm_num) htarget)
    have huncarry : z.uncarry c.precision = z := if_neg (Nat.not_lt.mpr hdigits)
    have hadjusted : z.isZero = false → z.adjusted ≤ maxExponent := by
      intro hz
      have hle := (Decimal.le_magnitude hz).trans (hmagnitude.trans_le hmax)
      have := Decimal.lt_of_ten_zpow_lt (hle.trans_lt largest_magnitude_lt)
      simp only [maxExponent]
      omega
    refine ⟨z, ?_, ?_⟩
    · simp only [huncarry]
      refine if_neg ?_
      simp only [Bool.and_eq_true, Bool.not_eq_true', decide_eq_true_eq, not_and, not_lt]
      exact hadjusted
    · simp only [Decimal.toRat, hmagnitude, hnegative]

/-! ### Quotients -/

theorem mod_eq_zero_of_large {n d k : ℕ} {t : ℤ} (hd : 0 < d) (hk : k < 10 ^ 28)
    (hlarge : 10 ^ 28 * d ≤ n) (h : (n : ℚ) = k * 10 ^ t * d) : n % d = 0 := by
  have ht : 0 ≤ t := by
    refine le_of_not_gt fun hneg => ?_
    have hpow : (10 : ℚ) ^ t ≤ 1 := zpow_le_one_of_nonpos₀ (by norm_num) (le_of_lt hneg)
    have hkq : (k : ℚ) < 10 ^ 28 := by exact_mod_cast hk
    have hdq : (0 : ℚ) < d := by exact_mod_cast hd
    have hlargeq : (10 : ℚ) ^ 28 * d ≤ n := by exact_mod_cast hlarge
    have hle : (k : ℚ) * 10 ^ t ≤ k := mul_le_of_le_one_right (by positivity) hpow
    have hlt : (n : ℚ) < 10 ^ 28 * d := by
      rw [h]
      exact mul_lt_mul_of_pos_right (hle.trans_lt hkq) hdq
    linarith
  obtain ⟨j, rfl⟩ := Int.eq_ofNat_of_zero_le ht
  rw [zpow_natCast] at h
  have hn : n = k * 10 ^ j * d := by exact_mod_cast h
  rw [hn]
  exact Nat.mul_mod_left ..

section Quotient

variable {x y : Decimal} {shift : ℤ}

theorem le_shifted {p : ℕ} (hx : x.isZero = false)
    (hshift : shift = y.digits - x.digits + p + 1) :
    10 ^ p * (y.coefficient * 10 ^ (-shift).toNat) ≤ x.coefficient * 10 ^ shift.toNat := by
  have hlow := Decimal.ten_pow_le_of_pos (Decimal.coefficient_pos hx)
  have hpos := x.digits_pos
  have hexponent : p + y.digits + (-shift).toNat = (x.digits - 1) + shift.toNat := by omega
  calc 10 ^ p * (y.coefficient * 10 ^ (-shift).toNat)
      ≤ 10 ^ p * (10 ^ y.digits * 10 ^ (-shift).toNat) :=
        Nat.mul_le_mul_left _ (Nat.mul_le_mul_right _ (le_of_lt y.coefficient_lt))
    _ = 10 ^ (p + y.digits + (-shift).toNat) := by
        rw [Nat.pow_add, Nat.pow_add, Nat.mul_assoc]
    _ = 10 ^ (x.digits - 1) * 10 ^ shift.toNat := by rw [hexponent, Nat.pow_add]
    _ ≤ x.coefficient * 10 ^ shift.toNat := Nat.mul_le_mul_right _ hlow

/-- The quotient of the shifted coefficients has the value of the quotient, up to a power of ten. -/
theorem shifted_div (x : Decimal) (shift : ℤ) (hy : y.isZero = false) :
    ((x.coefficient * 10 ^ shift.toNat : ℕ) : ℚ) =
      x.magnitude / y.magnitude * 10 ^ (shift - (x.exponent - y.exponent)) *
        (y.coefficient * 10 ^ (-shift).toNat : ℕ) := by
  have hpow : (10 : ℚ) ^ shift.toNat = 10 ^ shift * 10 ^ (-shift).toNat := by
    rw [← zpow_natCast, ← zpow_natCast, ← zpow_add₀ (by norm_num)]
    congr 1
    omega
  have hcoefficient : (y.coefficient : ℚ) ≠ 0 := by
    exact_mod_cast Nat.ne_of_gt (Decimal.coefficient_pos hy)
  simp only [Decimal.magnitude]
  push_cast
  rw [hpow, zpow_sub₀ (by norm_num), zpow_sub₀ (by norm_num)]
  have hx : (10 : ℚ) ^ x.exponent ≠ 0 := by positivity
  have hye : (10 : ℚ) ^ y.exponent ≠ 0 := by positivity
  field_simp

theorem magnitude_div_eq_shifted (x : Decimal) (shift : ℤ) (hy : y.isZero = false) :
    x.magnitude / y.magnitude =
      ((x.coefficient * 10 ^ shift.toNat : ℕ) : ℚ) / (y.coefficient * 10 ^ (-shift).toNat : ℕ) *
        10 ^ (x.exponent - y.exponent - shift) := by
  have hd : ((y.coefficient * 10 ^ (-shift).toNat : ℕ) : ℚ) ≠ 0 := by
    exact_mod_cast Nat.ne_of_gt (Nat.mul_pos (Decimal.coefficient_pos hy) (Nat.pow_pos (by decide)))
  rw [shifted_div x shift hy, mul_div_cancel_right₀ _ hd, mul_assoc, ← zpow_add₀ (by norm_num),
    sub_add_sub_cancel, sub_self, zpow_zero, mul_one]

theorem toRat_div_toRat (x y : Decimal) :
    x.toRat / y.toRat = if x.negative != y.negative then -(x.magnitude / y.magnitude)
      else x.magnitude / y.magnitude := by
  unfold Decimal.toRat
  cases x.negative <;> cases y.negative <;> simp [neg_div, div_neg]

theorem toRat_div_of_magnitude {z : Decimal} (hnegative : z.negative = (x.negative != y.negative))
    (hmagnitude : z.magnitude = x.magnitude / y.magnitude) : z.toRat = x.toRat / y.toRat := by
  rw [toRat_div_toRat, Decimal.toRat, hnegative, hmagnitude]

/-- A division without a rest gives the quotient. -/
theorem toRat_cutQuotient_of_mod_eq_zero {c : Context} (hy : y.isZero = false)
    (hshift : shift = y.digits - x.digits + c.precision + 1)
    (h : x.coefficient * 10 ^ shift.toNat % (y.coefficient * 10 ^ (-shift).toNat) = 0) :
    (c.cutQuotient x y).toRat = x.toRat / y.toRat := by
  have hd : ((y.coefficient * 10 ^ (-shift).toNat : ℕ) : ℚ) ≠ 0 := by
    exact_mod_cast Nat.ne_of_gt (Nat.mul_pos (Decimal.coefficient_pos hy) (Nat.pow_pos (by decide)))
  unfold cutQuotient
  simp only [← hshift, h, if_true, Decimal.toRat_stripZeros]
  refine toRat_div_of_magnitude rfl ?_
  rw [magnitude_div_eq_shifted x shift hy, ← Nat.cast_div (Nat.dvd_of_mod_eq_zero h) hd]
  rfl

/-- A representable quotient is found without rounding. -/
theorem toRat_cutQuotient {c : Context} (hp : 28 ≤ c.precision) (hx : x.isZero = false)
    (hy : y.isZero = false) (h : Representable (x.toRat / y.toRat)) :
    (c.cutQuotient x y).toRat = x.toRat / y.toRat := by
  obtain ⟨shift, hshift⟩ : ∃ s : ℤ, s = y.digits - x.digits + c.precision + 1 := ⟨_, rfl⟩
  have hd : 0 < y.coefficient * 10 ^ (-shift).toNat :=
    Nat.mul_pos (Decimal.coefficient_pos hy) (Nat.pow_pos (by decide))
  have hvalue := shifted_div x shift hy
  refine toRat_cutQuotient_of_mod_eq_zero hy hshift ?_
  obtain hzero | ⟨⟨k, e, hk, hq⟩, _⟩ := h
  · have hne := div_ne_zero ((Decimal.isZero_eq_false x).mp hx)
      ((Decimal.isZero_eq_false y).mp hy)
    exact absurd hzero hne
  rw [abs_div, Decimal.abs_toRat, Decimal.abs_toRat] at hq
  rw [hq, mul_assoc (k : ℚ), ← zpow_add₀ (by norm_num)] at hvalue
  have hlarge := (Nat.mul_le_mul_right _ (Nat.pow_le_pow_right (by decide) hp)).trans
    (le_shifted (y := y) hx hshift)
  exact mod_eq_zero_of_large hd hk hlarge hvalue

end Quotient

theorem exists_divide_of_representable {c : Context} {x y : Decimal} (hp : 28 ≤ c.precision)
    (hy : y.isZero = false) (h : Representable (x.toRat / y.toRat)) :
    ∃ z, c.divide x y = .ok z ∧ z.toRat = x.toRat / y.toRat := by
  unfold divide
  rw [if_neg (by simp [hy])]
  cases hx : x.isZero with
  | true =>
    have hzero : (Decimal.mk (x.negative != y.negative) 0 (x.exponent - y.exponent)).toRat =
        x.toRat / y.toRat := by
      rw [(Decimal.isZero_iff x).mp hx, zero_div, Decimal.toRat_eq_zero]
    rw [if_pos rfl, ← hzero]
    rw [← hzero] at h
    exact exists_round_of_representable hp h
  | false =>
    have hquotient := toRat_cutQuotient hp hx hy h
    rw [if_neg (by simp), ← hquotient]
    rw [← hquotient] at h
    exact exists_round_of_representable hp h

end Context

end PocketCalculator
