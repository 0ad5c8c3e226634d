import Mathlib.Data.Int.Log
import PocketCalculator.Proofs.Decimal.Exact

/-!
# Significant digits

A rational rounded to so many significant digits, a half to even, is `significant`. Between the ends
of the exponent range a context rounds every decimal to this number
(`exists_round_eq_significant`).
-/

namespace PocketCalculator

/-! ### A half to even -/

/-- The integer nearest to `q`; a half goes to the even neighbour. -/
def halfEven (q : ℚ) : ℤ :=
  if Int.fract q < 1 / 2 then ⌊q⌋
  else if 1 / 2 < Int.fract q then ⌊q⌋ + 1
  else ⌊q⌋ + ⌊q⌋ % 2

theorem halfEven_intCast (n : ℤ) : halfEven n = n := by
  rw [halfEven, Int.fract_intCast, if_pos (by norm_num), Int.floor_intCast]

theorem halfEven_neg (q : ℚ) : halfEven (-q) = -halfEven q := by
  by_cases hfract : Int.fract q = 0
  · obtain ⟨n, rfl⟩ : ∃ n : ℤ, q = n := ⟨⌊q⌋, by linarith [Int.floor_add_fract q]⟩
    rw [← Int.cast_neg, halfEven_intCast, halfEven_intCast]
  · have hneg : Int.fract (-q) = 1 - Int.fract q := Int.fract_neg hfract
    have hfloor : ⌊-q⌋ = -⌊q⌋ - 1 := by
      have hcast : ((⌊-q⌋ : ℤ) : ℚ) = ((-⌊q⌋ - 1 : ℤ) : ℚ) := by
        push_cast
        linarith [Int.floor_add_fract q, Int.floor_add_fract (-q)]
      exact_mod_cast hcast
    simp only [halfEven, hneg, hfloor]
    rcases lt_trichotomy (Int.fract q) (1 / 2) with hlt | heq | hgt
    · rw [if_neg (by linarith), if_pos (by linarith), if_pos hlt]
      omega
    · rw [if_neg (by linarith), if_neg (by linarith), if_neg (by linarith), if_neg (by linarith)]
      omega
    · rw [if_pos (by linarith), if_neg (by linarith), if_pos hgt]
      omega

theorem nearest_toEven_eq_halfEven (n : ℕ) {d : ℕ} (hd : 0 < d) :
    (nearest .toEven n d : ℤ) = halfEven ((n : ℚ) / d) := by
  have hdq : (0 : ℚ) < d := by exact_mod_cast hd
  have hfloor : ⌊(n : ℚ) / d⌋ = (n / d : ℕ) := by
    rw [Rat.floor_natCast_div_natCast, Int.natCast_ediv]
  have hfract : Int.fract ((n : ℚ) / d) = (n % d : ℕ) / d :=
    Int.fract_div_natCast_eq_div_natCast_mod
  have hlt : Int.fract ((n : ℚ) / d) < 1 / 2 ↔ 2 * (n % d) < d := by
    rw [hfract, div_lt_div_iff₀ hdq (by norm_num), one_mul, mul_comm]
    exact_mod_cast Iff.rfl
  have hgt : 1 / 2 < Int.fract ((n : ℚ) / d) ↔ d < 2 * (n % d) := by
    rw [hfract, div_lt_div_iff₀ (by norm_num) hdq, one_mul, mul_comm]
    exact_mod_cast Iff.rfl
  simp only [nearest, halfEven, hlt, hgt, hfloor]
  split
  · rfl
  · split <;> rfl

/-! ### The first digit -/

theorem log_eq {q : ℚ} {e : ℤ} (hlow : 10 ^ e ≤ q) (hhigh : q < 10 ^ (e + 1)) :
    Int.log 10 q = e := by
  have hpos : 0 < q := lt_of_lt_of_le (by positivity) hlow
  have h1 := (Int.zpow_le_iff_le_log (b := 10) (by norm_num) hpos).mp (by exact_mod_cast hlow)
  have h2 := (Int.lt_zpow_iff_log_lt (b := 10) (by norm_num) hpos).mp (by exact_mod_cast hhigh)
  omega

theorem log_mul_zpow {q : ℚ} (hq : 0 < q) (k : ℤ) : Int.log 10 (q * 10 ^ k) = Int.log 10 q + k := by
  have hpow : (0 : ℚ) < 10 ^ k := by positivity
  apply log_eq
  · rw [zpow_add₀ (by norm_num)]
    exact mul_le_mul_of_nonneg_right (Int.zpow_log_le_self (by norm_num) hq) hpow.le
  · rw [add_right_comm, zpow_add₀ (by norm_num)]
    exact mul_lt_mul_of_pos_right (Int.lt_zpow_succ_log_self (by norm_num) q) hpow

theorem Decimal.log_magnitude {x : Decimal} (hx : x.isZero = false) :
    Int.log 10 x.magnitude = x.adjusted :=
  log_eq (le_magnitude hx) x.magnitude_lt

/-! ### Significant digits -/

/-- The power of ten of the last of `p` significant digits. -/
def lastPlace (p : ℕ) (q : ℚ) : ℤ := Int.log 10 |q| - p + 1

/-- `q` rounded to `p` significant digits; a half goes to the even neighbour. -/
def significant (p : ℕ) (q : ℚ) : ℚ := halfEven (q / 10 ^ lastPlace p q) * 10 ^ lastPlace p q

/-- A number that `p` digits are enough for. -/
def HasDigits (p : ℕ) (q : ℚ) : Prop := ∃ (c : ℕ) (e : ℤ), c < 10 ^ p ∧ |q| = c * 10 ^ e

section Significant

variable {p : ℕ} {q : ℚ}

theorem significant_zero (p : ℕ) : significant p 0 = 0 := by
  have hzero : halfEven 0 = 0 := halfEven_intCast 0
  rw [significant, zero_div, hzero, Int.cast_zero, zero_mul]

theorem significant_neg (p : ℕ) (q : ℚ) : significant p (-q) = -significant p q := by
  have hplace : lastPlace p (-q) = lastPlace p q := by rw [lastPlace, lastPlace, abs_neg]
  rw [significant, significant, hplace, neg_div, halfEven_neg, Int.cast_neg, neg_mul]

theorem significant_mul_zpow (p : ℕ) (q : ℚ) (k : ℤ) :
    significant p (q * 10 ^ k) = significant p q * 10 ^ k := by
  rcases eq_or_ne q 0 with rfl | hq
  · rw [zero_mul, significant_zero, zero_mul]
  have hplace : lastPlace p (q * 10 ^ k) = lastPlace p q + k := by
    have hpow : |(10 : ℚ) ^ k| = 10 ^ k := abs_of_pos (by positivity)
    rw [lastPlace, lastPlace, abs_mul, hpow, log_mul_zpow (abs_pos.mpr hq)]
    ring
  have hpow : (10 : ℚ) ^ k ≠ 0 := by positivity
  rw [significant, significant, hplace, zpow_add₀ (by norm_num), mul_div_mul_right _ _ hpow,
    mul_assoc]

theorem HasDigits.mono {p' : ℕ} (h : HasDigits p q) (hp : p ≤ p') : HasDigits p' q := by
  obtain ⟨c, e, hc, hq⟩ := h
  exact ⟨c, e, Nat.lt_of_lt_of_le hc (Nat.pow_le_pow_right (by norm_num) hp), hq⟩

theorem significant_of_hasDigits (h : HasDigits p q) : significant p q = q := by
  obtain ⟨c, e, hc, hq⟩ := h
  rcases eq_or_ne q 0 with rfl | hne
  · exact significant_zero p
  have hplace : lastPlace p q ≤ e := by
    have hlog := Int.zpow_log_le_self (b := 10) (by norm_num) (abs_pos.mpr hne)
    have hcq : (c : ℚ) < 10 ^ (p : ℤ) := by exact_mod_cast hc
    have hlt : (10 : ℚ) ^ Int.log 10 |q| < 10 ^ (p + e) := by
      rw [zpow_add₀ (by norm_num)]
      exact (hlog.trans_eq hq).trans_lt (mul_lt_mul_of_pos_right hcq (by positivity))
    have := Decimal.lt_of_ten_zpow_lt hlt
    simp only [lastPlace]
    omega
  have hpow : (10 : ℚ) ^ lastPlace p q ≠ 0 := by positivity
  obtain ⟨m, hm⟩ : ∃ m : ℤ, |q| = m * 10 ^ lastPlace p q := by
    refine ⟨c * 10 ^ (e - lastPlace p q).toNat, ?_⟩
    rw [hq, Decimal.ten_zpow_add_toNat hplace, ← mul_assoc]
    push_cast
    rfl
  obtain ⟨n, hn⟩ : ∃ n : ℤ, q = n * 10 ^ lastPlace p q := by
    rcases abs_choice q with habs | habs
    · exact ⟨m, habs.symm.trans hm⟩
    · exact ⟨-m, by rw [Int.cast_neg, neg_mul, ← hm, habs, neg_neg]⟩
  have hquotient : q / 10 ^ lastPlace p q = n := by
    rw [div_eq_iff hpow]
    exact hn
  rw [significant, hquotient, halfEven_intCast, ← hn]

end Significant

/-! ### Rounding of decimals -/

namespace Decimal

variable {x : Decimal} {p : ℕ} {e : ℤ}

theorem hasDigits_of_digits_le (h : x.digits ≤ p) : HasDigits p x.toRat :=
  ⟨x.coefficient, x.exponent,
    Nat.lt_of_lt_of_le x.coefficient_lt (Nat.pow_le_pow_right (by norm_num) h), x.abs_toRat⟩

theorem magnitude_toExponent_toEven (h : x.exponent < e) :
    (x.toExponent .toEven e).magnitude = halfEven (x.magnitude / 10 ^ e) * 10 ^ e := by
  have hpow : 0 < 10 ^ (e - x.exponent).toNat := Nat.pow_pos (by norm_num)
  have hquotient : x.magnitude / 10 ^ e =
      (x.coefficient : ℚ) / (10 ^ (e - x.exponent).toNat : ℕ) := by
    have hten : (10 : ℚ) ^ x.exponent ≠ 0 := by positivity
    rw [magnitude, ten_zpow_add_toNat h.le, mul_div_mul_right _ _ hten]
    push_cast
    rfl
  rw [toExponent_of_lt .toEven h, hquotient, ← nearest_toEven_eq_halfEven _ hpow]
  rfl

theorem toRat_toExponent_toEven (h : x.exponent < e) :
    (x.toExponent .toEven e).toRat = halfEven (x.toRat / 10 ^ e) * 10 ^ e := by
  rw [toRat, toRat, negative_toExponent, magnitude_toExponent_toEven h]
  split
  · rw [neg_div, halfEven_neg, Int.cast_neg, neg_mul]
  · rfl

theorem toRat_uncarry (hp : 0 < p) (h : x.coefficient ≤ 10 ^ p) :
    (x.uncarry p).toRat = x.toRat := by
  unfold uncarry
  split
  · next hlong =>
    -- One digit too many comes from a carry only, and leaves a power of ten.
    have hlow := ten_pow_le_of_pos (n := x.coefficient) (by
      refine Nat.pos_of_ne_zero fun hzero => ?_
      rw [digits, hzero, digitCount_zero] at hlong
      omega)
    have hle : 10 ^ p ≤ x.coefficient :=
      (Nat.pow_le_pow_right (by norm_num) (by simp only [digits] at hlong; omega)).trans hlow
    have heq : (x.coefficient : ℚ) = (x.coefficient / 10 : ℕ) * 10 := by
      have hten : 10 ^ p = 10 ^ (p - 1) * 10 := by rw [← pow_succ, Nat.sub_add_cancel hp]
      exact_mod_cast (show x.coefficient = x.coefficient / 10 * 10 by omega)
    simp only [toRat, magnitude]
    rw [heq, zpow_add_one₀ (by norm_num), mul_comm ((10 : ℚ) ^ x.exponent), ← mul_assoc]
  · rfl

end Decimal

namespace Context

/-- Zero, or a number with room at both ends of the exponent range. -/
def WithinExponents (q : ℚ) : Prop :=
  q = 0 ∨ (10 : ℚ) ^ minExponent ≤ |q| ∧ |q| < 10 ^ maxExponent

variable {c : Context} {x y : Decimal}

theorem targetExponent_eq_max (h : minExponent ≤ x.adjusted) :
    c.targetExponent x = max x.exponent (x.adjusted - c.precision + 1) := by
  simp only [targetExponent, finestExponent]
  omega

theorem toRat_toExponent_targetExponent (hties : c.ties = .toEven) (hx : x.isZero = false)
    (hmin : minExponent ≤ x.adjusted) :
    (x.toExponent c.ties (c.targetExponent x)).toRat = significant c.precision x.toRat := by
  rw [targetExponent_eq_max hmin]
  rcases Int.lt_or_le x.exponent (x.adjusted - c.precision + 1) with hlong | hshort
  · have hplace : lastPlace c.precision x.toRat = x.adjusted - c.precision + 1 := by
      rw [lastPlace, Decimal.abs_toRat, Decimal.log_magnitude hx]
    rw [max_eq_right hlong.le, hties, Decimal.toRat_toExponent_toEven hlong, significant, hplace]
  · have hdigits : x.digits ≤ c.precision := by
      simp only [Decimal.adjusted] at hshort
      omega
    rw [max_eq_left hshort, Decimal.toExponent_self,
      significant_of_hasDigits (Decimal.hasDigits_of_digits_le hdigits)]

theorem magnitude_toExponent_targetExponent_le (hmin : minExponent ≤ x.adjusted) :
    (x.toExponent c.ties (c.targetExponent x)).magnitude ≤ 10 ^ (x.adjusted + 1) := by
  have hcoefficient := c.coefficient_toExponent_le x
  rw [targetExponent_eq_max hmin] at hcoefficient ⊢
  rcases Int.lt_or_le x.exponent (x.adjusted - c.precision + 1) with hlong | hshort
  · rw [max_eq_right hlong.le] at hcoefficient ⊢
    have hle : ((x.toExponent c.ties (x.adjusted - c.precision + 1)).coefficient : ℚ) ≤
        10 ^ (c.precision : ℤ) := by exact_mod_cast hcoefficient
    have hpow : (10 : ℚ) ^ (x.adjusted + 1) =
        10 ^ (c.precision : ℤ) * 10 ^ (x.adjusted - c.precision + 1) := by
      rw [← zpow_add₀ (by norm_num)]
      congr 1
      ring
    rw [Decimal.magnitude, Decimal.toExponent_exponent, hpow]
    exact mul_le_mul_of_nonneg_right hle (by positivity)
  · rw [max_eq_left hshort, Decimal.toExponent_self]
    exact x.magnitude_lt.le

theorem exists_round_eq_significant (hties : c.ties = .toEven) (hp : 0 < c.precision)
    (h : WithinExponents x.toRat) :
    ∃ y, c.round x = .ok y ∧ y.toRat = significant c.precision x.toRat := by
  cases hx : x.isZero with
  | true =>
    have hround : c.round x =
        .ok { x with exponent := max c.finestExponent (min x.exponent maxExponent) } := if_pos hx
    refine ⟨_, hround, ?_⟩
    rw [toRat_of_round_isZero hx hround, (Decimal.isZero_iff x).mp hx, significant_zero]
  | false =>
    obtain hzero | ⟨hlow, hhigh⟩ := h
    · exact absurd hzero ((Decimal.isZero_eq_false x).mp hx)
    rw [Decimal.abs_toRat] at hlow hhigh
    have hmin := Decimal.lt_of_ten_zpow_lt (hlow.trans_lt x.magnitude_lt)
    have hmax := Decimal.lt_of_ten_zpow_lt ((Decimal.le_magnitude hx).trans_lt hhigh)
    have hvalue := toRat_toExponent_targetExponent hties hx (by omega)
    have hmagnitude := magnitude_toExponent_targetExponent_le (c := c) (x := x) (by omega)
    have huncarry := Decimal.toRat_uncarry hp (c.coefficient_toExponent_le x)
    rw [← Decimal.abs_toRat, ← huncarry, Decimal.abs_toRat] at hmagnitude
    rw [← huncarry] at hvalue
    unfold round
    rw [if_neg (by simp [hx])]
    generalize (x.toExponent c.ties (c.targetExponent x)).uncarry c.precision = y
      at hvalue hmagnitude ⊢
    refine ⟨y, if_neg ?_, hvalue⟩
    simp only [Bool.and_eq_true, Bool.not_eq_true', decide_eq_true_eq, not_and, not_lt]
    intro hy
    have hle := (zpow_le_zpow_iff_right₀ (by norm_num)).mp
      ((Decimal.le_magnitude hy).trans hmagnitude)
    omega

theorem exists_plus_eq_significant (hties : c.ties = .toEven) (hp : 0 < c.precision)
    (h : WithinExponents x.toRat) :
    ∃ y, c.plus x = .ok y ∧ y.toRat = significant c.precision x.toRat ∧
      (y.isZero = true ∨ y.negative = x.negative) := by
  unfold plus
  split
  · next hzero =>
    have habs := Decimal.toRat_abs_of_isZero hzero
    obtain ⟨y, hy, hvalue⟩ := exists_round_eq_significant (x := x.abs) hties hp (habs ▸ h)
    exact ⟨y, hy, hvalue.trans (by rw [habs]), Or.inl (isZero_of_round (x := x.abs) hzero hy)⟩
  · obtain ⟨y, hy, hvalue⟩ := exists_round_eq_significant hties hp h
    exact ⟨y, hy, hvalue, Or.inr (negative_of_round hy)⟩

end Context

/-! ### Representable numbers -/

section Representable

variable {q : ℚ}

theorem Representable.hasDigits (h : Representable q) : HasDigits 28 q := by
  obtain rfl | ⟨⟨c, e, hc, hq⟩, _⟩ := h
  · exact ⟨0, 0, by decide, by rw [abs_zero, Nat.cast_zero, zero_mul]⟩
  · exact ⟨c, e, hc, hq⟩

theorem Representable.withinExponents (h : Representable q) : Context.WithinExponents q := by
  obtain rfl | ⟨_, hmin, hmax⟩ := h
  · exact Or.inl rfl
  · have hrange : (10 : ℚ) ^ (309 : ℤ) ≤ 10 ^ Context.maxExponent :=
      zpow_le_zpow_right₀ (by norm_num) (by decide)
    exact Or.inr ⟨hmin, (hmax.trans_lt largest_magnitude_lt).trans_le hrange⟩

end Representable

end PocketCalculator
