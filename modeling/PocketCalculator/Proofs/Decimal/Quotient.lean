import PocketCalculator.Proofs.Decimal.Significant

/-!
# Rounded quotients

A quotient is cut before it is rounded, and a digit `1` stands for what is left over. This digit
puts the cut quotient on the same side of every tie as the exact one, so both are rounded to the
same number.
-/

namespace PocketCalculator

/-! ### The same side of every integer -/

/-- Two numbers are equal, or they lie strictly between the same two integers. -/
structure SameSide (u v : ℚ) : Prop where
  floor_eq : ⌊u⌋ = ⌊v⌋
  eq_or_ne : u = v ∨ u ≠ ⌊u⌋ ∧ v ≠ ⌊v⌋

section Ties

variable {u : ℚ} {k : ℕ}

theorem fract_div_eq (hk : 0 < k) :
    Int.fract (u / (2 * k : ℕ)) = (u - (2 * k * (⌊u⌋ / (2 * k : ℕ)) : ℤ)) / (2 * k : ℕ) := by
  have hd : ((2 * k : ℕ) : ℚ) ≠ 0 := by
    exact_mod_cast Nat.ne_of_gt (Nat.mul_pos (by norm_num) hk)
  rw [Int.fract, Int.floor_div_natCast, sub_div]
  congr 1
  rw [eq_div_iff hd]
  push_cast
  ring

theorem fract_div_lt_half (hk : 0 < k) :
    Int.fract (u / (2 * k : ℕ)) < 1 / 2 ↔ ⌊u⌋ < 2 * k * (⌊u⌋ / (2 * k : ℕ)) + k := by
  have hkq : (0 : ℚ) < k := by exact_mod_cast hk
  rw [Int.floor_lt, fract_div_eq hk, div_lt_div_iff₀ (by positivity) (by norm_num)]
  push_cast
  constructor <;> intro h <;> linarith

theorem half_lt_fract_div (hk : 0 < k) (hu : u ≠ ⌊u⌋) :
    1 / 2 < Int.fract (u / (2 * k : ℕ)) ↔ 2 * k * (⌊u⌋ / (2 * k : ℕ)) + k ≤ ⌊u⌋ := by
  have hkq : (0 : ℚ) < k := by exact_mod_cast hk
  rw [Int.le_floor, fract_div_eq hk, div_lt_div_iff₀ (by norm_num) (by positivity)]
  -- The middle between two multiples of an even number is an integer, so `u` is not a tie.
  have hne : ((2 * k * (⌊u⌋ / (2 * k : ℕ)) + k : ℤ) : ℚ) ≠ u := by
    intro heq
    rw [← heq, Int.floor_intCast] at hu
    exact hu rfl
  rw [hne.le_iff_lt]
  push_cast
  constructor <;> intro h <;> linarith

end Ties

namespace SameSide

variable {u v : ℚ}

theorem halfEven_div (h : SameSide u v) {k : ℕ} (hk : 0 < k) :
    halfEven (u / (2 * k : ℕ)) = halfEven (v / (2 * k : ℕ)) := by
  obtain rfl | ⟨hu, hv⟩ := h.eq_or_ne
  · rfl
  · simp only [halfEven, fract_div_lt_half hk, half_lt_fract_div hk hu, half_lt_fract_div hk hv,
      Int.floor_div_natCast, h.floor_eq]

theorem le_iff (h : SameSide u v) (n : ℤ) : (n : ℚ) ≤ u ↔ (n : ℚ) ≤ v := by
  rw [← Int.le_floor, ← Int.le_floor, h.floor_eq]

theorem one_le (h : SameSide u v) (hu : 1 ≤ u) : 1 ≤ v := by
  exact_mod_cast (h.le_iff 1).mp (by exact_mod_cast hu)

theorem log_eq (h : SameSide u v) (hu : 1 ≤ u) : Int.log 10 u = Int.log 10 v := by
  rw [Int.log_of_one_le_right 10 hu, Int.log_of_one_le_right 10 (h.one_le hu), ← Int.floor_toNat,
    ← Int.floor_toNat, h.floor_eq]

/-- Numbers of more digits than are kept are rounded alike. -/
theorem significant_eq (h : SameSide u v) {p : ℕ} (hu : 10 ^ p ≤ u) :
    significant p u = significant p v := by
  have hone : 1 ≤ u := (one_le_pow₀ (by norm_num)).trans hu
  have hv := h.one_le hone
  have hplace : lastPlace p u = lastPlace p v := by
    rw [lastPlace, lastPlace, abs_of_pos (by linarith), abs_of_pos (by linarith), h.log_eq hone]
  have hpos : 0 < lastPlace p v := by
    have hle : (p : ℤ) ≤ Int.log 10 u := by
      rw [← Int.zpow_le_iff_le_log (by norm_num) (by linarith), zpow_natCast]
      exact_mod_cast hu
    rw [← hplace, lastPlace, abs_of_pos (by linarith)]
    omega
  obtain ⟨j, hj⟩ : ∃ j : ℕ, lastPlace p v = (j + 1 : ℕ) := ⟨(lastPlace p v - 1).toNat, by omega⟩
  have hpow : (10 : ℚ) ^ lastPlace p v = (2 * (5 * 10 ^ j) : ℕ) := by
    rw [hj, zpow_natCast, pow_succ]
    push_cast
    ring
  rw [significant, significant, hplace, hpow, h.halfEven_div (by positivity)]

end SameSide

namespace Context

/-! ### Cut quotients -/

theorem WithinExponents.of_log_eq {q r : ℚ} (hq : q ≠ 0) (hr : r ≠ 0)
    (hlog : Int.log 10 |q| = Int.log 10 |r|) (h : WithinExponents q) : WithinExponents r := by
  obtain hzero | ⟨hlow, hhigh⟩ := h
  · exact absurd hzero hq
  have hqpos := abs_pos.mpr hq
  have hrpos := abs_pos.mpr hr
  right
  have hlow' := (Int.zpow_le_iff_le_log (b := 10) (by norm_num) hqpos).mp (by exact_mod_cast hlow)
  have hhigh' := (Int.lt_zpow_iff_log_lt (b := 10) (by norm_num) hqpos).mp
    (by exact_mod_cast hhigh)
  rw [hlog] at hlow' hhigh'
  constructor
  · exact_mod_cast (Int.zpow_le_iff_le_log (b := 10) (by norm_num) hrpos).mpr hlow'
  · exact_mod_cast (Int.lt_zpow_iff_log_lt (b := 10) (by norm_num) hrpos).mpr hhigh'

variable {c : Context} {x y : Decimal}

theorem sameSide_of_mod_ne_zero {n d : ℕ} (hd : 0 < d) (h : n % d ≠ 0) :
    SameSide ((n : ℚ) / d) ((n / d : ℕ) + 1 / 10) := by
  have hdq : (d : ℚ) ≠ 0 := by exact_mod_cast Nat.ne_of_gt hd
  have hu : ⌊(n : ℚ) / d⌋ = (n / d : ℕ) := by
    rw [Rat.floor_natCast_div_natCast, Int.natCast_ediv]
  have hv : ⌊((n / d : ℕ) + 1 / 10 : ℚ)⌋ = (n / d : ℕ) := by
    rw [Int.floor_natCast_add, show ⌊(1 / 10 : ℚ)⌋ = 0 by norm_num, add_zero]
  refine ⟨hu.trans hv.symm, Or.inr ⟨?_, ?_⟩⟩
  · rw [hu, Int.cast_natCast, ne_eq, div_eq_iff hdq]
    intro heq
    have hmul : n = n / d * d := by exact_mod_cast heq
    exact h (hmul ▸ Nat.mul_mod_left ..)
  · rw [hv, Int.cast_natCast]
    norm_num

theorem negative_stripZeros (limit : ℤ) (x : Decimal) :
    (stripZeros limit x).negative = x.negative := by
  fun_induction stripZeros limit x with
  | case1 x h ih => exact ih
  | case2 x h => rfl

theorem negative_cutQuotient (c : Context) (x y : Decimal) :
    (c.cutQuotient x y).negative = (x.negative != y.negative) := by
  unfold cutQuotient
  simp only
  split
  · exact negative_stripZeros ..
  · rfl

/-- In units of the last digit, the quotient and the cut quotient lie on the same side of every
integer. -/
theorem exists_sameSide_cutQuotient (c : Context) (hx : x.isZero = false) (hy : y.isZero = false) :
    ∃ (u v : ℚ) (k : ℤ), SameSide u v ∧ 10 ^ c.precision ≤ u ∧
      x.magnitude / y.magnitude = u * 10 ^ k ∧ (c.cutQuotient x y).magnitude = v * 10 ^ k := by
  obtain ⟨shift, hshift⟩ : ∃ s : ℤ, s = y.digits - x.digits + c.precision + 1 := ⟨_, rfl⟩
  obtain ⟨n, hn⟩ : ∃ n, x.coefficient * 10 ^ shift.toNat = n := ⟨_, rfl⟩
  obtain ⟨d, hd⟩ : ∃ d, y.coefficient * 10 ^ (-shift).toNat = d := ⟨_, rfl⟩
  have hdpos : 0 < d := hd ▸ Nat.mul_pos (Decimal.coefficient_pos hy) (Nat.pow_pos (by decide))
  have hdq : (0 : ℚ) < d := by exact_mod_cast hdpos
  have hlarge : 10 ^ c.precision * d ≤ n := by
    rw [← hn, ← hd]
    exact le_shifted hx hshift
  have hquotient : x.magnitude / y.magnitude = n / d * 10 ^ (x.exponent - y.exponent - shift) := by
    rw [← hn, ← hd]
    exact magnitude_div_eq_shifted x shift hy
  have hlow : (10 : ℚ) ^ c.precision ≤ n / d := by
    rw [le_div_iff₀ hdq]
    exact_mod_cast hlarge
  by_cases hrest : n % d = 0
  · have hexact : (c.cutQuotient x y).magnitude = x.magnitude / y.magnitude := by
      rw [← Decimal.abs_toRat, toRat_cutQuotient_of_mod_eq_zero hy hshift (by rw [hn, hd, hrest]),
        abs_div, Decimal.abs_toRat, Decimal.abs_toRat]
    exact ⟨n / d, n / d, _, ⟨rfl, Or.inl rfl⟩, hlow, hquotient, hexact.trans hquotient⟩
  · have hcut : (c.cutQuotient x y).magnitude =
        ((n / d : ℕ) + 1 / 10) * 10 ^ (x.exponent - y.exponent - shift) := by
      unfold cutQuotient
      simp only [← hshift, hn, hd, hrest, if_false, Decimal.magnitude]
      rw [zpow_sub_one₀ (by norm_num)]
      push_cast
      ring
    exact ⟨n / d, (n / d : ℕ) + 1 / 10, _, sameSide_of_mod_ne_zero hdpos hrest, hlow, hquotient,
      hcut⟩

theorem significant_cutQuotient (c : Context) (hx : x.isZero = false) (hy : y.isZero = false) :
    significant c.precision (c.cutQuotient x y).toRat =
      significant c.precision (x.toRat / y.toRat) := by
  obtain ⟨u, v, k, hside, hlow, hquotient, hcut⟩ := exists_sameSide_cutQuotient c hx hy
  have hmagnitude : significant c.precision (c.cutQuotient x y).magnitude =
      significant c.precision (x.magnitude / y.magnitude) := by
    rw [hcut, hquotient, significant_mul_zpow, significant_mul_zpow, hside.significant_eq hlow]
  have hnegative := negative_cutQuotient c x y
  rw [toRat_div_toRat, Decimal.toRat, hnegative]
  split
  · rw [significant_neg, significant_neg, hmagnitude]
  · exact hmagnitude

theorem withinExponents_cutQuotient (c : Context) (hx : x.isZero = false) (hy : y.isZero = false)
    (h : WithinExponents (x.toRat / y.toRat)) : WithinExponents (c.cutQuotient x y).toRat := by
  obtain ⟨u, v, k, hside, hlow, hquotient, hcut⟩ := exists_sameSide_cutQuotient c hx hy
  have hone : 1 ≤ u := (one_le_pow₀ (by norm_num)).trans hlow
  have hv := hside.one_le hone
  refine h.of_log_eq ?_ ?_ ?_
  · exact div_ne_zero ((Decimal.isZero_eq_false x).mp hx) ((Decimal.isZero_eq_false y).mp hy)
  · rw [← abs_pos, Decimal.abs_toRat, hcut]
    positivity
  · rw [abs_div, Decimal.abs_toRat, Decimal.abs_toRat, Decimal.abs_toRat, hquotient, hcut,
      log_mul_zpow (by linarith), log_mul_zpow (by linarith), hside.log_eq hone]

theorem exists_divide_eq_significant (hties : c.ties = .toEven) (hp : 0 < c.precision)
    (hy : y.isZero = false) (h : WithinExponents (x.toRat / y.toRat)) :
    ∃ z, c.divide x y = .ok z ∧ z.toRat = significant c.precision (x.toRat / y.toRat) := by
  unfold divide
  rw [if_neg (by simp [hy])]
  cases hx : x.isZero with
  | true =>
    have hzero : x.toRat / y.toRat = 0 := by rw [(Decimal.isZero_iff x).mp hx, zero_div]
    have hcoefficient : (Decimal.mk (x.negative != y.negative) 0 (x.exponent - y.exponent)).toRat =
        0 := (Decimal.toRat_eq_zero _).mpr rfl
    rw [if_pos rfl, hzero, ← hcoefficient]
    exact exists_round_eq_significant hties hp (Or.inl hcoefficient)
  | false =>
    rw [if_neg (by simp), ← significant_cutQuotient c hx hy]
    exact exists_round_eq_significant hties hp (withinExponents_cutQuotient c hx hy h)

end Context

end PocketCalculator
