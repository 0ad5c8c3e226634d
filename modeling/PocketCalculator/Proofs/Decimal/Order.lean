import PocketCalculator.Proofs.Decimal.Significant

/-!
# Rounding keeps the order

A rounded decimal stays on its side of every number that the context can hold
(`magnitude_le_of_round`, `le_magnitude_of_round`). What is at most half of the smallest step
vanishes: it is rounded to zero (`round_of_vanishing`).
-/

namespace PocketCalculator

theorem le_nearest (ties : Ties) {n d q : ℕ} (hd : 0 < d) (h : q * d ≤ n) :
    q ≤ nearest ties n d := by
  have hle : q ≤ n / d := (Nat.le_div_iff_mul_le hd).mpr h
  rcases nearest_mem ties n d with heq | heq
  · omega
  · omega

theorem nearest_toEven_eq_zero {n d : ℕ} (hd : 0 < d) (h : 2 * n ≤ d) :
    nearest .toEven n d = 0 := by
  have hlt : n < d := by omega
  simp only [nearest, Nat.div_eq_of_lt hlt, Nat.mod_eq_of_lt hlt]
  split
  · rfl
  · rw [if_neg (by omega)]

/-! ### At a given exponent -/

namespace Decimal

variable {x : Decimal} {e : ℤ} {m : ℕ} {ties : Ties}

theorem mul_le_magnitude_iff (h : x.exponent ≤ e) :
    (m : ℚ) * 10 ^ e ≤ x.magnitude ↔ m * 10 ^ (e - x.exponent).toNat ≤ x.coefficient := by
  have hpow : (0 : ℚ) < 10 ^ x.exponent := by positivity
  rw [ten_zpow_add_toNat h, ← mul_assoc, magnitude, mul_le_mul_iff_of_pos_right hpow]
  exact_mod_cast Iff.rfl

theorem magnitude_le_mul_iff (h : x.exponent ≤ e) :
    x.magnitude ≤ m * 10 ^ e ↔ x.coefficient ≤ m * 10 ^ (e - x.exponent).toNat := by
  have hpow : (0 : ℚ) < 10 ^ x.exponent := by positivity
  rw [ten_zpow_add_toNat h, ← mul_assoc, magnitude, mul_le_mul_iff_of_pos_right hpow]
  exact_mod_cast Iff.rfl

theorem two_mul_magnitude_le_iff (h : x.exponent ≤ e) :
    2 * x.magnitude ≤ 10 ^ e ↔ 2 * x.coefficient ≤ 10 ^ (e - x.exponent).toNat := by
  have hpow : (0 : ℚ) < 10 ^ x.exponent := by positivity
  rw [ten_zpow_add_toNat h, magnitude, ← mul_assoc, mul_le_mul_iff_of_pos_right hpow]
  exact_mod_cast Iff.rfl

/-- Multiples of the last place are not passed by rounding. -/
theorem mul_le_magnitude_toExponent (hlt : x.exponent < e) (h : (m : ℚ) * 10 ^ e ≤ x.magnitude) :
    (m : ℚ) * 10 ^ e ≤ (x.toExponent ties e).magnitude := by
  have hle := (mul_le_magnitude_iff hlt.le).mp h
  rw [toExponent_of_lt ties hlt, magnitude]
  refine mul_le_mul_of_nonneg_right ?_ (by positivity)
  exact_mod_cast le_nearest ties (Nat.pow_pos (by norm_num)) hle

theorem magnitude_toExponent_le_mul (hlt : x.exponent < e) (h : x.magnitude ≤ m * 10 ^ e) :
    (x.toExponent ties e).magnitude ≤ m * 10 ^ e := by
  have hle := (magnitude_le_mul_iff hlt.le).mp h
  rw [toExponent_of_lt ties hlt, magnitude]
  refine mul_le_mul_of_nonneg_right ?_ (by positivity)
  exact_mod_cast nearest_le ties (Nat.pow_pos (by norm_num)) hle

end Decimal

namespace Context

variable {c : Context} {x y v : Decimal}

/-! ### Rounded decimals -/

/-- `x` rounded to the precision, even if it is then too large. -/
def rounded (c : Context) (x : Decimal) : Decimal :=
  (x.toExponent c.ties (c.targetExponent x)).uncarry c.precision

theorem round_of_not_isZero (hx : x.isZero = false) :
    c.round x = if !(c.rounded x).isZero && maxExponent < (c.rounded x).adjusted
      then .error .overflow else .ok (c.rounded x) :=
  if_neg (Bool.eq_false_iff.mp hx)

theorem eq_rounded (hx : x.isZero = false) (h : c.round x = .ok y) : y = c.rounded x := by
  rw [round_of_not_isZero hx] at h
  split at h
  · cases h
  · exact (Except.ok.inj h).symm

theorem magnitude_rounded (hp : 0 < c.precision) (x : Decimal) :
    (c.rounded x).magnitude = (x.toExponent c.ties (c.targetExponent x)).magnitude := by
  have huncarry := Decimal.toRat_uncarry hp (c.coefficient_toExponent_le x)
  rw [← Decimal.abs_toRat, rounded, huncarry, Decimal.abs_toRat]

/-- What has digits below the place where `x` is rounded has its first digit behind that of `x`. -/
theorem magnitude_lt_of_exponent_lt (hv : c.Contains v) (hx : x.exponent < c.targetExponent x)
    (h : v.exponent < c.targetExponent x) :
    c.targetExponent x + (c.precision - 1) = x.adjusted ∧ v.magnitude < 10 ^ x.adjusted := by
  have hdigits := hv.digits_le
  have hfinest := hv.finest_le
  have hadjusted : v.adjusted = v.exponent + v.digits - 1 := rfl
  have htarget : c.targetExponent x + (c.precision - 1) = x.adjusted := by
    simp only [targetExponent] at hx h ⊢
    omega
  exact ⟨htarget, v.magnitude_lt.trans_le (zpow_le_zpow_right₀ (by norm_num) (by omega))⟩

theorem magnitude_rounded_le (hp : 0 < c.precision) (hx : x.isZero = false) (hv : c.Contains v)
    (h : x.magnitude ≤ v.magnitude) : (c.rounded x).magnitude ≤ v.magnitude := by
  rw [magnitude_rounded hp]
  rcases Int.lt_or_eq_of_le (c.exponent_le_targetExponent x) with hlt | heq
  · have hplace : c.targetExponent x ≤ v.exponent := by
      by_contra hbelow
      obtain ⟨_, hless⟩ := magnitude_lt_of_exponent_lt hv hlt (not_le.mp hbelow)
      exact absurd ((Decimal.le_magnitude hx).trans h) (not_le.mpr hless)
    rw [← v.coefficientAt_mul hplace] at h ⊢
    exact Decimal.magnitude_toExponent_le_mul hlt h
  · rw [← heq, Decimal.toExponent_self]
    exact h

theorem le_magnitude_rounded (hp : 0 < c.precision) (hx : x.isZero = false) (hv : c.Contains v)
    (h : v.magnitude ≤ x.magnitude) : v.magnitude ≤ (c.rounded x).magnitude := by
  rw [magnitude_rounded hp]
  rcases Int.lt_or_eq_of_le (c.exponent_le_targetExponent x) with hlt | heq
  · rcases Int.lt_or_le v.exponent (c.targetExponent x) with hbelow | hplace
    · -- The power of ten of the first digit lies between the two.
      obtain ⟨htarget, hless⟩ := magnitude_lt_of_exponent_lt hv hlt hbelow
      have hpow : (10 : ℚ) ^ x.adjusted =
          (10 ^ (c.precision - 1) : ℕ) * 10 ^ c.targetExponent x := by
        rw [← htarget, add_comm, zpow_add₀ (by norm_num), Nat.cast_pow, Nat.cast_ofNat,
          ← zpow_natCast, Nat.cast_sub hp, Nat.cast_one]
      have hle := Decimal.le_magnitude hx
      rw [hpow] at hle hless
      exact hless.le.trans (Decimal.mul_le_magnitude_toExponent hlt hle)
    · rw [← v.coefficientAt_mul hplace] at h ⊢
      exact Decimal.mul_le_magnitude_toExponent hlt h
  · rw [← heq, Decimal.toExponent_self]
    exact h

theorem magnitude_of_round_isZero (hx : x.isZero = true) (h : c.round x = .ok y) :
    y.magnitude = x.magnitude := by
  rw [← Decimal.abs_toRat, toRat_of_round_isZero hx h, Decimal.abs_toRat]

theorem magnitude_le_of_round (hp : 0 < c.precision) (hv : c.Contains v) (h : c.round x = .ok y)
    (hle : x.magnitude ≤ v.magnitude) : y.magnitude ≤ v.magnitude := by
  cases hx : x.isZero with
  | true => rwa [magnitude_of_round_isZero hx h]
  | false =>
    rw [eq_rounded hx h]
    exact magnitude_rounded_le hp hx hv hle

theorem le_magnitude_of_round (hp : 0 < c.precision) (hv : c.Contains v) (h : c.round x = .ok y)
    (hle : v.magnitude ≤ x.magnitude) : v.magnitude ≤ y.magnitude := by
  cases hx : x.isZero with
  | true => rwa [magnitude_of_round_isZero hx h]
  | false =>
    rw [eq_rounded hx h]
    exact le_magnitude_rounded hp hx hv hle

/-- Nothing overflows below a number that the context can hold. -/
theorem exists_round_of_magnitude_le (hp : 0 < c.precision) (hv : c.Contains v)
    (h : x.magnitude ≤ v.magnitude) : ∃ y, c.round x = .ok y := by
  cases hx : x.isZero with
  | true => exact ⟨_, if_pos hx⟩
  | false =>
    refine ⟨c.rounded x, ?_⟩
    rw [round_of_not_isZero hx]
    refine if_neg ?_
    simp only [Bool.and_eq_true, Bool.not_eq_true', decide_eq_true_eq, not_and, not_lt]
    intro hnonzero
    have hle := (Decimal.le_magnitude hnonzero).trans (magnitude_rounded_le hp hx hv h)
    have hlt := Decimal.lt_of_ten_zpow_lt (hle.trans_lt v.magnitude_lt)
    have hmax := hv.adjusted_le
    omega

/-! ### Vanishing decimals -/

theorem toExponent_of_vanishing (hties : c.ties = .toEven) (hp : 0 < c.precision)
    (hx : x.isZero = false) (h : 2 * x.magnitude ≤ 10 ^ c.finestExponent) :
    x.toExponent c.ties (c.targetExponent x) = ⟨x.negative, 0, c.finestExponent⟩ := by
  have hlow := Decimal.le_magnitude hx
  have hlt : x.adjusted < c.finestExponent := by
    refine Decimal.lt_of_ten_zpow_lt (lt_of_lt_of_le ?_ h)
    have hpos : (0 : ℚ) < 10 ^ x.adjusted := by positivity
    linarith
  have hdigits := x.digits_pos
  have hadjusted : x.adjusted = x.exponent + x.digits - 1 := rfl
  have htarget : c.targetExponent x = c.finestExponent := by
    simp only [targetExponent]
    omega
  have hexponent : x.exponent < c.finestExponent := by omega
  have hzero := nearest_toEven_eq_zero (Nat.pow_pos (by norm_num))
    ((Decimal.two_mul_magnitude_le_iff hexponent.le).mp h)
  rw [htarget, hties, Decimal.toExponent_of_lt .toEven hexponent, hzero]

/-- What is at most half of the smallest step is rounded to zero. -/
theorem round_of_vanishing (hties : c.ties = .toEven) (hp : 0 < c.precision)
    (hx : x.isZero = false) (h : 2 * x.magnitude ≤ 10 ^ c.finestExponent) :
    c.round x = .ok ⟨x.negative, 0, c.finestExponent⟩ := by
  have hrounded : c.rounded x = ⟨x.negative, 0, c.finestExponent⟩ := by
    rw [rounded, toExponent_of_vanishing hties hp hx h]
    refine if_neg (Nat.not_lt.mpr ?_)
    exact Decimal.digitCount_zero.trans_le hp
  rw [round_of_not_isZero hx, hrounded]
  rfl

/-- Nothing else is rounded to zero. -/
theorem vanishing_of_round (hp : 0 < c.precision) (hx : x.isZero = false)
    (h : c.round x = .ok y) (hy : y.isZero = true) :
    2 * x.magnitude ≤ 10 ^ c.finestExponent := by
  rw [eq_rounded hx h, Decimal.isZero_iff, Decimal.toRat_eq_zero, ← Decimal.magnitude_eq_zero,
    magnitude_rounded hp, Decimal.magnitude_eq_zero] at hy
  have htarget := targetExponent_of_toExponent_isZero hx hp hy
  have hle := c.exponent_le_targetExponent x
  rw [htarget] at hy hle
  rcases Int.lt_or_eq_of_le hle with hlt | heq
  · rw [Decimal.toExponent_of_lt c.ties hlt] at hy
    have hnearest : nearest c.ties x.coefficient
      (10 ^ (c.finestExponent - x.exponent).toNat) = 0 := hy
    obtain ⟨_, hhalf⟩ := two_mul_nearest_le c.ties x.coefficient
      (10 ^ (c.finestExponent - x.exponent).toNat) (Nat.pow_pos (by norm_num))
    rw [hnearest, Nat.zero_mul, Nat.mul_zero, Nat.zero_add] at hhalf
    exact (Decimal.two_mul_magnitude_le_iff hle).mpr hhalf
  · rw [← heq, Decimal.toExponent_self] at hy
    exact absurd hy (Decimal.coefficient_pos hx).ne'

end Context

end PocketCalculator
