import PocketCalculator.Decimal.Rounding

/-!
# Rounded sums

The terms of a sum may be so far apart that the exact sum has more digits than can be held, nearly
all of them to be rounded away. Then the smaller term decides only on which side of the larger one
the sum lies, and a single unit below all digits that are kept decides that as well. The main
statement is that a sum formed in this way is the rounded exact sum (`sum_eq_round_add`).
-/

namespace PocketCalculator

-- Powers are the core library's, also where other power instances are imported.
attribute [local instance (1200)] instPowNat

/-! ### Nearest integers of almost equal numbers -/

/-- A common factor does not matter. -/
theorem nearest_mul_right (ties : Ties) (n d : Nat) {k : Nat} (hk : 0 < k) :
    nearest ties (n * k) (d * k) = nearest ties n d := by
  have h1 : 2 * (n % d * k) < d * k ↔ 2 * (n % d) < d := by
    rw [← Nat.mul_assoc]
    exact Nat.mul_lt_mul_right hk
  have h2 : d * k < 2 * (n % d * k) ↔ d < 2 * (n % d) := by
    rw [← Nat.mul_assoc]
    exact Nat.mul_lt_mul_right hk
  simp only [nearest, Nat.mul_div_mul_right n d hk, Nat.mul_mod_mul_right, h1, h2]

/-- When tens are rounded away, what is added to a multiple of ten counts as one, if it is not zero
and not more than one. All is written in units of `1 / k`. -/
theorem nearest_add_le_unit (ties : Ties) {a b k m : Nat} (hb : 0 < b) (hm : 0 < m)
    (hmk : m ≤ k) :
    nearest ties (10 * a * k + m) (10 * b * k) = nearest ties (10 * a + 1) (10 * b) := by
  obtain ⟨h1, h2⟩ := two_mul_nearest_le ties (10 * a + 1) (10 * b) (by omega)
  generalize nearest ties (10 * a + 1) (10 * b) = r at h1 h2
  rw [Nat.mul_left_comm r 10 b] at h1 h2
  have h3 : 2 * (r * b) ≤ 2 * a + b := by omega
  have h4 : 2 * a + 1 ≤ 2 * (r * b) + b := by omega
  have h5 := Nat.mul_le_mul_right k h3
  have h6 := Nat.mul_le_mul_right k h4
  simp only [Nat.add_mul, Nat.mul_assoc, Nat.one_mul] at h5 h6
  have h7 : r * (10 * b * k) = 10 * (r * (b * k)) := by
    rw [Nat.mul_assoc, Nat.mul_left_comm]
  have h8 : 10 * a * k = 10 * (a * k) := Nat.mul_assoc ..
  have h9 : 10 * b * k = 10 * (b * k) := Nat.mul_assoc ..
  apply nearest_eq_of_lt
  · rw [h7, h8, h9]
    omega
  · rw [h7, h8, h9]
    omega

/-- The same for what is taken away from a multiple of ten. -/
theorem nearest_sub_le_unit (ties : Ties) {a b k m : Nat} (ha : 0 < a) (hb : 0 < b) (hm : 0 < m)
    (hmk : m ≤ k) :
    nearest ties (10 * a * k - m) (10 * b * k) = nearest ties (10 * a - 1) (10 * b) := by
  obtain ⟨h1, h2⟩ := two_mul_nearest_le ties (10 * a - 1) (10 * b) (by omega)
  generalize nearest ties (10 * a - 1) (10 * b) = r at h1 h2
  rw [Nat.mul_left_comm r 10 b] at h1 h2
  have h3 : 2 * (r * b) + 1 ≤ 2 * a + b := by omega
  have h4 : 2 * a ≤ 2 * (r * b) + b := by omega
  have h5 := Nat.mul_le_mul_right k h3
  have h6 := Nat.mul_le_mul_right k h4
  have hak : k ≤ a * k := Nat.le_mul_of_pos_left k ha
  simp only [Nat.add_mul, Nat.mul_assoc, Nat.one_mul] at h5 h6
  have h7 : r * (10 * b * k) = 10 * (r * (b * k)) := by
    rw [Nat.mul_assoc, Nat.mul_left_comm]
  have h8 : 10 * a * k = 10 * (a * k) := Nat.mul_assoc ..
  have h9 : 10 * b * k = 10 * (b * k) := Nat.mul_assoc ..
  apply nearest_eq_of_lt
  · rw [h7, h8, h9]
    omega
  · rw [h7, h8, h9]
    omega

namespace Decimal

/-! ### Numbers of digits -/

theorem digitCount_eq {n k : Nat} (h1 : 10 ^ k ≤ n) (h2 : n < 10 ^ (k + 1)) :
    digitCount n = k + 1 := by
  have hpos : 0 < n := Nat.lt_of_lt_of_le (Nat.pow_pos (by decide)) h1
  have h3 := Nat.lt_of_le_of_lt (ten_pow_le_of_pos hpos) h2
  have h4 := Nat.lt_of_le_of_lt h1 (lt_ten_pow_digitCount n)
  have h5 := (Nat.pow_lt_pow_iff_right (by decide)).mp h3
  have h6 := (Nat.pow_lt_pow_iff_right (by decide)).mp h4
  have h7 := digitCount_pos n
  omega

/-- `m` has `k` digits more than `n` if it lies between the numbers that `n` bounds. -/
theorem digitCount_eq_add {m n k : Nat}
    (h1 : 10 ^ (digitCount n - 1) * 10 ^ k ≤ m) (h2 : m < 10 ^ digitCount n * 10 ^ k) :
    digitCount m = digitCount n + k := by
  have hd := digitCount_pos n
  rw [← Nat.pow_add] at h1 h2
  have h3 : digitCount n + k = digitCount n - 1 + k + 1 := by omega
  rw [h3] at h2 ⊢
  exact digitCount_eq h1 h2

theorem lt_digitCount {n k : Nat} (h : 10 ^ k ≤ n) : k < digitCount n :=
  (Nat.pow_lt_pow_iff_right (by decide)).mp (Nat.lt_of_le_of_lt h (lt_ten_pow_digitCount n))

/-- A unit in place of the last zero leaves the number of digits as it is. -/
theorem ten_pow_le_of_unit {n : Nat} (hn : 0 < n) :
    10 ^ (digitCount (10 * n + 1) - 1) ≤ 10 * n := by
  have hlow := ten_pow_le_of_pos (Nat.succ_pos (10 * n))
  have htwo : 1 < digitCount (10 * n + 1) := lt_digitCount (by omega)
  obtain ⟨d, hd⟩ : ∃ d, digitCount (10 * n + 1) = d + 2 :=
    ⟨digitCount (10 * n + 1) - 2, by omega⟩
  rw [Nat.succ_eq_add_one, hd, Nat.add_succ_sub_one, Nat.pow_succ] at hlow
  rw [hd, Nat.add_succ_sub_one, Nat.pow_succ]
  omega

/-! ### Exact sums -/

theorem coefficientAt_sub (x : Decimal) {e : Int} (he : e ≤ x.exponent) (k : Nat) :
    x.coefficientAt (e - k) = x.coefficientAt e * 10 ^ k := by
  rw [x.coefficientAt_eq, x.coefficientAt_eq, Nat.mul_assoc, ← Nat.pow_add,
    show (x.exponent - (e - k)).toNat = (x.exponent - e).toNat + k by omega]

protected theorem add_comm (x y : Decimal) : x.add y = y.add x := by
  simp only [add, Int.min_comm x.exponent, Int.add_comm (x.valueAt _), Bool.and_comm x.negative]

/-- A sum has the sign of the larger term. -/
theorem add_of_coefficientAt_lt {x y : Decimal} {e : Int} (he : min x.exponent y.exponent = e)
    (h : y.coefficientAt e < x.coefficientAt e) :
    x.add y = ⟨x.negative,
      if x.negative = y.negative then x.coefficientAt e + y.coefficientAt e
      else x.coefficientAt e - y.coefficientAt e, e⟩ := by
  simp only [add, he, valueAt]
  cases hx : x.negative <;> cases hy : y.negative
  · have h1 : ¬ ((x.coefficientAt e : Int) + y.coefficientAt e = 0) := by omega
    have h2 : ¬ ((x.coefficientAt e : Int) + y.coefficientAt e < 0) := by omega
    have h3 : ((x.coefficientAt e : Int) + y.coefficientAt e).natAbs =
      x.coefficientAt e + y.coefficientAt e := by omega
    simp [h1, h2, h3]
  · have h1 : ¬ ((x.coefficientAt e : Int) + -(y.coefficientAt e : Int) = 0) := by omega
    have h2 : ¬ ((x.coefficientAt e : Int) + -(y.coefficientAt e : Int) < 0) := by omega
    have h3 : ((x.coefficientAt e : Int) + -(y.coefficientAt e : Int)).natAbs =
      x.coefficientAt e - y.coefficientAt e := by omega
    simp [h1, h2, h3]
  · have h1 : ¬ (-(x.coefficientAt e : Int) + y.coefficientAt e = 0) := by omega
    have h2 : -(x.coefficientAt e : Int) + y.coefficientAt e < 0 := by omega
    have h3 : (-(x.coefficientAt e : Int) + y.coefficientAt e).natAbs =
      x.coefficientAt e - y.coefficientAt e := by omega
    simp [h1, h2, h3]
  · have h1 : ¬ (-(x.coefficientAt e : Int) + -(y.coefficientAt e : Int) = 0) := by omega
    have h2 : -(x.coefficientAt e : Int) + -(y.coefficientAt e : Int) < 0 := by omega
    have h3 : (-(x.coefficientAt e : Int) + -(y.coefficientAt e : Int)).natAbs =
      x.coefficientAt e + y.coefficientAt e := by omega
    simp [h1, h2, h3]

end Decimal

namespace Context

/-! ### Traces -/

/-- The power of ten below which a term added to `x` is seen by the rounding through its sign
only. -/
def traceExponent (c : Context) (x : Decimal) : Int :=
  min x.exponent (x.adjusted - c.precision) - 1

/-- What a sum with `x` needs of `y`: all of it, or a unit with its sign if no digit of it is near
those of `x`. -/
def trace (c : Context) (x y : Decimal) : Decimal :=
  if !x.isZero && y.adjusted < c.traceExponent x then
    ⟨y.negative, min 1 y.coefficient, c.traceExponent x⟩
  else y

def sum (c : Context) (x y : Decimal) : Except Signal Decimal :=
  c.round ((c.trace y x).add (c.trace x y))

/-! ### Rounding sees no difference -/

/-- Digits down to `k` places further do not change a rounded value, if neither the place of the
first digit nor the nearest integers change. -/
theorem round_finer (c : Context) (negative : Bool) {m n k : Nat} {e : Int} (hm : 0 < m)
    (hn : 0 < n) (hdigits : Decimal.digitCount m = Decimal.digitCount n + k)
    (hlong : c.precision < Decimal.digitCount n)
    (hnearest : ∀ b, 0 < b → nearest c.ties m (10 * b * 10 ^ k) = nearest c.ties n (10 * b)) :
    c.round ⟨negative, m, e - k⟩ = c.round ⟨negative, n, e⟩ := by
  have hzm : (Decimal.mk negative m (e - k)).isZero = false := by
    simp only [Decimal.isZero, beq_eq_false_iff_ne]
    omega
  have hzn : (Decimal.mk negative n e).isZero = false := by
    simp only [Decimal.isZero, beq_eq_false_iff_ne]
    omega
  obtain ⟨t, ht⟩ : ∃ t, c.targetExponent ⟨negative, n, e⟩ = t := ⟨_, rfl⟩
  have htm : c.targetExponent ⟨negative, m, e - k⟩ = t := by
    rw [← ht]
    simp only [targetExponent, Decimal.adjusted, Decimal.digits, hdigits]
    omega
  have hlt : e < t := by
    rw [← ht]
    simp only [targetExponent, Decimal.adjusted, Decimal.digits]
    omega
  have hpow : 10 ^ (t - e).toNat = 10 * 10 ^ ((t - e).toNat - 1) := by
    rw [← Nat.pow_succ', show ((t - e).toNat - 1).succ = (t - e).toNat by omega]
  have hpowk : 10 ^ (t - (e - k)).toNat = 10 * 10 ^ ((t - e).toNat - 1) * 10 ^ k := by
    rw [← hpow, ← Nat.pow_add, show (t - (e - k)).toNat = (t - e).toNat + k by omega]
  have htoExponent : (Decimal.mk negative m (e - k)).toExponent c.ties t =
      (Decimal.mk negative n e).toExponent c.ties t := by
    rw [Decimal.toExponent_of_lt c.ties (show e - k < t by omega),
      Decimal.toExponent_of_lt c.ties (show e < t from hlt)]
    have hb : 0 < 10 ^ ((t - e).toNat - 1) := Nat.pow_pos (by decide)
    simp only [hpow, hpowk, hnearest _ hb]
  simp only [round, hzm, hzn, ht, htm, htoExponent, Bool.false_eq_true, if_false]

/-! A wide number ends in a zero and has more digits than are kept. What is added to it or taken
from it below its last digit, and a unit in its place, are the same to the rounding. -/

section Wide

variable {c : Context} {negative : Bool} {a k m : Nat} {e : Int}

theorem round_wide (hlong : 10 ^ (c.precision + 1) ≤ 10 * a) :
    c.round ⟨negative, 10 * a * 10 ^ k, e - k⟩ = c.round ⟨negative, 10 * a, e⟩ := by
  have hkpos : 0 < 10 ^ k := Nat.pow_pos (by decide)
  have hpos : 0 < 10 * a := Nat.lt_of_lt_of_le (Nat.pow_pos (by decide)) hlong
  have hdigits : Decimal.digitCount (10 * a * 10 ^ k) = Decimal.digitCount (10 * a) + k :=
    Decimal.digitCount_eq_add (Nat.mul_le_mul_right _ (Decimal.ten_pow_le_of_pos hpos))
      (Nat.mul_lt_mul_of_pos_right (Decimal.lt_ten_pow_digitCount _) hkpos)
  exact c.round_finer negative (Nat.mul_pos hpos hkpos) hpos hdigits
    (Nat.lt_of_succ_lt (Decimal.lt_digitCount hlong))
    fun b _ => nearest_mul_right c.ties _ _ hkpos

theorem round_wide_add (hlong : 10 ^ (c.precision + 1) ≤ 10 * a) (hm : 0 < m) (hmk : m < 10 ^ k) :
    c.round ⟨negative, 10 * a * 10 ^ k + m, e - k⟩ = c.round ⟨negative, 10 * a + 1, e⟩ := by
  have hpos : 0 < 10 * a := Nat.lt_of_lt_of_le (Nat.pow_pos (by decide)) hlong
  have hlow := Nat.mul_le_mul_right (10 ^ k) (Decimal.ten_pow_le_of_unit (n := a) (by omega))
  have hhigh := Nat.mul_le_mul_right (10 ^ k)
    (Nat.succ_le_of_lt (Decimal.lt_ten_pow_digitCount (10 * a + 1)))
  rw [Nat.succ_mul, Nat.add_mul, Nat.one_mul] at hhigh
  have hdigits :
      Decimal.digitCount (10 * a * 10 ^ k + m) = Decimal.digitCount (10 * a + 1) + k :=
    Decimal.digitCount_eq_add (Nat.le_trans hlow (Nat.le_add_right ..)) (by omega)
  exact c.round_finer negative (by omega) (by omega) hdigits
    (Nat.lt_of_succ_lt (Decimal.lt_digitCount (Nat.le_succ_of_le hlong)))
    fun b hb => nearest_add_le_unit c.ties hb hm (Nat.le_of_lt hmk)

theorem round_wide_sub (hlong : 10 ^ (c.precision + 1) ≤ 10 * a) (hm : 0 < m) (hmk : m < 10 ^ k) :
    c.round ⟨negative, 10 * a * 10 ^ k - m, e - k⟩ = c.round ⟨negative, 10 * a - 1, e⟩ := by
  have hpos : 0 < 10 * a := Nat.lt_of_lt_of_le (Nat.pow_pos (by decide)) hlong
  have hwide : 10 ^ k ≤ 10 * a * 10 ^ k := Nat.le_mul_of_pos_left _ hpos
  have hlow := Nat.mul_le_mul_right (10 ^ k)
    (Decimal.ten_pow_le_of_pos (show 0 < 10 * a - 1 by omega))
  rw [Nat.sub_mul, Nat.one_mul] at hlow
  have hhigh := Nat.mul_le_mul_right (10 ^ k)
    (Nat.succ_le_of_lt (Decimal.lt_ten_pow_digitCount (10 * a - 1)))
  rw [Nat.succ_eq_add_one, show 10 * a - 1 + 1 = 10 * a by omega] at hhigh
  have hdigits :
      Decimal.digitCount (10 * a * 10 ^ k - m) = Decimal.digitCount (10 * a - 1) + k :=
    Decimal.digitCount_eq_add (by omega) (by omega)
  rw [Nat.pow_succ] at hlong
  exact c.round_finer negative (by omega) (by omega) hdigits
    (Decimal.lt_digitCount (by omega))
    fun b hb => nearest_sub_le_unit c.ties (by omega) hb hm (Nat.le_of_lt hmk)

end Wide

/-- At the exponent of its traces a term is wide. -/
theorem exists_wide (c : Context) {x : Decimal} (hx : x.isZero = false) :
    c.traceExponent x < x.exponent ∧ ∃ a, x.coefficientAt (c.traceExponent x) = 10 * a ∧
      10 ^ (c.precision + 1) ≤ 10 * a := by
  have hadjusted : x.adjusted = x.exponent + x.digits - 1 := rfl
  have hdigits := x.digits_pos
  obtain ⟨e, he⟩ : ∃ e, c.traceExponent x = e := ⟨_, rfl⟩
  rw [he]
  simp only [traceExponent] at he
  have hlt : e < x.exponent := by omega
  have hten : x.coefficientAt e = 10 * (x.coefficient * 10 ^ ((x.exponent - e).toNat - 1)) := by
    rw [x.coefficientAt_eq, Nat.mul_left_comm, ← Nat.pow_succ',
      show ((x.exponent - e).toNat - 1).succ = (x.exponent - e).toNat by omega]
  refine ⟨hlt, _, hten, ?_⟩
  rw [← hten, x.coefficientAt_eq]
  have hplaces : c.precision + 1 ≤ x.digits - 1 + (x.exponent - e).toNat := by omega
  calc 10 ^ (c.precision + 1)
      ≤ 10 ^ (x.digits - 1 + (x.exponent - e).toNat) := Nat.pow_le_pow_right (by decide) hplaces
    _ = 10 ^ (x.digits - 1) * 10 ^ (x.exponent - e).toNat := Nat.pow_add ..
    _ ≤ x.coefficient * 10 ^ (x.exponent - e).toNat :=
        Nat.mul_le_mul_right _ (Decimal.ten_pow_le_of_pos (Decimal.coefficient_pos hx))

/-- A term that leaves no more than a trace is less than a unit there. -/
theorem exists_below {e : Int} {y : Decimal} (h : y.adjusted < e) :
    ∃ k : Nat, y.exponent = e - k ∧ y.coefficient < 10 ^ k := by
  have hadjusted : y.adjusted = y.exponent + y.digits - 1 := rfl
  have hdigits := y.digits_pos
  refine ⟨(e - y.exponent).toNat, by omega, ?_⟩
  exact Nat.lt_of_lt_of_le y.coefficient_lt (Nat.pow_le_pow_right (by decide) (by omega))

/-- A trace adds to a rounded sum what the term itself does. -/
theorem round_add_trace (c : Context) (x y : Decimal) :
    c.round (x.add (c.trace x y)) = c.round (x.add y) := by
  simp only [trace]
  split
  · next hfar =>
    simp only [Bool.and_eq_true, Bool.not_eq_true', decide_eq_true_eq] at hfar
    obtain ⟨hzero, hfar⟩ := hfar
    obtain ⟨hexponent, a, ha, hlong⟩ := c.exists_wide hzero
    obtain ⟨k, hk, hsmall⟩ := exists_below hfar
    obtain ⟨e, he⟩ : ∃ e, c.traceExponent x = e := ⟨_, rfl⟩
    rw [he] at hexponent ha hk ⊢
    have hfine : x.coefficientAt (e - k) = 10 * a * 10 ^ k := by
      rw [x.coefficientAt_sub (Int.le_of_lt hexponent), ha]
    have hpos : 0 < 10 * a := Nat.lt_of_lt_of_le (Nat.pow_pos (by decide)) hlong
    have hwide : 10 ^ k ≤ 10 * a * 10 ^ k := Nat.le_mul_of_pos_left _ hpos
    have hy : y.coefficientAt (e - k) = y.coefficient := by rw [← hk, y.coefficientAt_self]
    have ht : (Decimal.mk y.negative (min 1 y.coefficient) e).coefficientAt e =
        min 1 y.coefficient := Decimal.coefficientAt_self ⟨_, _, e⟩
    rw [Decimal.add_of_coefficientAt_lt (e := e)
        (show min x.exponent e = e by omega) (by rw [ht, ha]; omega),
      Decimal.add_of_coefficientAt_lt (e := e - k)
        (show min x.exponent y.exponent = e - k by omega) (by rw [hy, hfine]; omega)]
    simp only [ht, hy, ha, hfine]
    -- The far term is zero, or it has the sign of the near one, or the other sign.
    rcases Nat.eq_zero_or_pos y.coefficient with hnone | hsome
    · simp only [hnone, Nat.min_zero, Nat.add_zero, Nat.sub_zero, ite_self]
      exact (round_wide hlong).symm
    · rw [show min 1 y.coefficient = 1 by omega]
      split
      · exact (round_wide_add hlong hsome hsmall).symm
      · exact (round_wide_sub hlong hsome hsmall).symm
  · rfl

/-- The rounded sum is the exact sum, rounded. -/
theorem sum_eq_round_add (c : Context) (x y : Decimal) :
    c.sum x y = c.round (x.add y) := by
  by_cases h : c.trace y x = x
  · rw [sum, h, round_add_trace c]
  · have hxy : c.trace x y = y := by
      have hfar : x.adjusted < c.traceExponent y := by
        apply Decidable.byContradiction
        intro hnear
        exact h (by simp [trace, hnear])
      have hnear : ¬ y.adjusted < c.traceExponent x := by
        simp only [traceExponent] at hfar ⊢
        omega
      simp [trace, hnear]
    rw [sum, hxy, Decimal.add_comm, round_add_trace c, Decimal.add_comm]

end Context
end PocketCalculator
