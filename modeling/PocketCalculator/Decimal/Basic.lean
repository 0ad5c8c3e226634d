/-!
# Decimals

A decimal is a sign, a coefficient and a power of ten, `±c · 10^e`. The three parts are kept as
they are: `1.5` and `1.50` are different decimals of the same value, and zero has a sign and an
exponent. The operations of this module are exact; rounding is a separate step
(`PocketCalculator.Decimal.Rounding`).
-/

namespace PocketCalculator

-- Powers are the core library's, also where other power instances are imported.
attribute [local instance (1200)] instPowNat

/-- The decimal `±coefficient · 10^exponent`. -/
structure Decimal where
  negative : Bool
  coefficient : Nat
  exponent : Int
  deriving DecidableEq

namespace Decimal

/-! ### Number of digits -/

/-- For `n` and a base `b`, the largest `e` with `b^e ≤ n` and the quotient `n / b^e`. The base is
squared on the way down, so a number of `d` digits takes about `log d` steps. -/
def leading (b n : Nat) (hb : 1 < b) : Nat × Nat :=
  if h : n < b then (n, 0)
  else
    let (q, e) := leading (b * b) n (by
      have hbb : b * 1 < b * b := (Nat.mul_lt_mul_left (by omega)).mpr hb
      omega)
    if q < b then (q, 2 * e) else (q / b, 2 * e + 1)
termination_by n + 1 - b
decreasing_by
  have hbb : b * 1 < b * b := (Nat.mul_lt_mul_left (by omega)).mpr hb
  omega

/-- The number of decimal digits of `n`; zero has one. -/
def digitCount (n : Nat) : Nat := (leading 10 n (by decide)).2 + 1

theorem leading_spec (b n : Nat) (hb : 1 < b) :
    (leading b n hb).1 = n / b ^ (leading b n hb).2 ∧ (leading b n hb).1 < b ∧
      (0 < n → 0 < (leading b n hb).1) := by
  fun_induction leading b n hb with
  | case1 b hb h => simp_all
  | case2 b hb h q e hqe hlt ih =>
    simp only [hqe] at ih
    refine ⟨?_, hlt, ih.2.2⟩
    rw [ih.1, Nat.mul_comm 2 e, Nat.mul_comm e 2, Nat.pow_mul, Nat.pow_two]
  | case3 b hb h q e hqe hlt ih =>
    simp only [hqe] at ih
    refine ⟨?_, ?_, ?_⟩
    · show q / b = n / b ^ (2 * e + 1)
      rw [ih.1, Nat.div_div_eq_div_mul, Nat.pow_succ, Nat.pow_mul, Nat.pow_two]
    · show q / b < b
      exact Nat.div_lt_of_lt_mul ih.2.1
    · intro _
      show 0 < q / b
      exact Nat.div_pos (by omega) (by omega)

theorem lt_ten_pow_digitCount (n : Nat) : n < 10 ^ digitCount n := by
  obtain ⟨h1, h2, _⟩ := leading_spec 10 n (by decide)
  rw [h1] at h2
  have h := (Nat.div_lt_iff_lt_mul (Nat.pow_pos (by decide))).mp h2
  rw [digitCount, Nat.pow_succ, Nat.mul_comm]
  exact h

theorem ten_pow_le_of_pos {n : Nat} (hn : 0 < n) : 10 ^ (digitCount n - 1) ≤ n := by
  obtain ⟨h1, _, h3⟩ := leading_spec 10 n (by decide)
  have h := h3 hn
  rw [h1] at h
  simp only [digitCount, Nat.add_sub_cancel]
  exact (Nat.div_pos_iff.mp h).2

theorem digitCount_pos (n : Nat) : 0 < digitCount n := Nat.succ_pos _

/-! ### Parts and tests -/

def digits (x : Decimal) : Nat := digitCount x.coefficient

/-- The power of ten of the first digit. -/
def adjusted (x : Decimal) : Int := x.exponent + x.digits - 1

def isZero (x : Decimal) : Bool := x.coefficient == 0

/-- The non-negative integer `n`, with exponent zero. -/
def ofNat (n : Nat) : Decimal := ⟨false, n, 0⟩

def abs (x : Decimal) : Decimal := { x with negative := false }

/-- The decimal with the other sign; zero changes sign too. -/
def flip (x : Decimal) : Decimal := { x with negative := !x.negative }

/-! ### The range of exponents

A decimal holds its exponent in a word, so not every number that can be written down is one. -/

/-- The smallest exponent. -/
def lowestExponent : Int := -1999999999999999997

/-- The largest power of ten of a first digit. -/
def highestExponent : Int := 999999999999999999

/-- The exponents of the first and of the last digit are within the range. -/
def isStorable (x : Decimal) : Bool := lowestExponent ≤ x.exponent && x.adjusted ≤ highestExponent

/-! ### Common exponents

Two decimals are added, divided with remainder and compared through the integers that they are at
a common exponent. Exponents may be quadrillions apart, so a power of ten is built only where the
first digits do not decide. -/

/-- The magnitude in units of `10^e`, for `e` not above the exponent. -/
def coefficientAt (x : Decimal) (e : Int) : Nat :=
  if x.isZero then 0 else x.coefficient * 10 ^ (x.exponent - e).toNat

/-- The signed value in units of `10^e`, for `e` not above the exponent. -/
def valueAt (x : Decimal) (e : Int) : Int :=
  if x.negative then -(x.coefficientAt e : Int) else x.coefficientAt e

theorem coefficientAt_eq (x : Decimal) (e : Int) :
    x.coefficientAt e = x.coefficient * 10 ^ (x.exponent - e).toNat := by
  by_cases h : x.coefficient = 0
  · simp [coefficientAt, isZero, h]
  · simp [coefficientAt, isZero, h]

theorem coefficientAt_self (x : Decimal) : x.coefficientAt x.exponent = x.coefficient := by
  simp [coefficientAt_eq]

theorem coefficient_lt (x : Decimal) : x.coefficient < 10 ^ x.digits :=
  lt_ten_pow_digitCount x.coefficient

theorem coefficient_pos {x : Decimal} (h : x.isZero = false) : 0 < x.coefficient := by
  simp only [isZero, beq_eq_false_iff_ne] at h
  omega

theorem digits_pos (x : Decimal) : 0 < x.digits := digitCount_pos x.coefficient

/-- The magnitude of `x` is larger than the magnitude of `y`. -/
def exceeds (x y : Decimal) : Bool :=
  if x.isZero || y.isZero then !x.isZero
  else if x.adjusted = y.adjusted then
    let e := min x.exponent y.exponent
    y.coefficientAt e < x.coefficientAt e
  else y.adjusted < x.adjusted

/-- Of two decimals with first digits at different places, the one that is ahead is larger. -/
theorem coefficientAt_lt_of_adjusted_lt {x y : Decimal} {e : Int} (hy : y.isZero = false)
    (hx : e ≤ x.exponent) (hye : e ≤ y.exponent) (h : x.adjusted < y.adjusted) :
    x.coefficientAt e < y.coefficientAt e := by
  simp only [coefficientAt_eq]
  have hlow := ten_pow_le_of_pos (coefficient_pos hy)
  have hdx := digits_pos x
  have hdy := digits_pos y
  simp only [adjusted] at h
  have hle : x.digits + (x.exponent - e).toNat ≤ (y.digits - 1) + (y.exponent - e).toNat := by omega
  calc x.coefficient * 10 ^ (x.exponent - e).toNat
      < 10 ^ x.digits * 10 ^ (x.exponent - e).toNat :=
        Nat.mul_lt_mul_of_pos_right x.coefficient_lt (Nat.pow_pos (by decide))
    _ = 10 ^ (x.digits + (x.exponent - e).toNat) := (Nat.pow_add ..).symm
    _ ≤ 10 ^ ((y.digits - 1) + (y.exponent - e).toNat) := Nat.pow_le_pow_right (by decide) hle
    _ = 10 ^ (y.digits - 1) * 10 ^ (y.exponent - e).toNat := Nat.pow_add ..
    _ ≤ y.coefficient * 10 ^ (y.exponent - e).toNat := Nat.mul_le_mul_right _ hlow

/-- Comparing first digits first is comparing at a common exponent. -/
theorem exceeds_iff (x y : Decimal) :
    x.exceeds y = true ↔ y.coefficientAt (min x.exponent y.exponent) <
      x.coefficientAt (min x.exponent y.exponent) := by
  have hx := Int.min_le_left x.exponent y.exponent
  have hy := Int.min_le_right x.exponent y.exponent
  simp only [exceeds]
  cases hzx : x.isZero with
  | true =>
    have h0 : x.coefficientAt (min x.exponent y.exponent) = 0 := by simp [coefficientAt, hzx]
    simp [h0]
  | false =>
    cases hzy : y.isZero with
    | true =>
      have h0 : y.coefficientAt (min x.exponent y.exponent) = 0 := by simp [coefficientAt, hzy]
      have hpos : 0 < x.coefficientAt (min x.exponent y.exponent) := by
        rw [coefficientAt_eq]
        exact Nat.mul_pos (coefficient_pos hzx) (Nat.pow_pos (by decide))
      simp [h0, hpos]
    | false =>
      simp only [Bool.or_self, Bool.false_eq_true, if_false]
      split
      · simp
      · rename_i hne
        rw [decide_eq_true_iff]
        constructor
        · exact coefficientAt_lt_of_adjusted_lt hzx hy hx
        · intro h
          rcases Int.lt_or_gt_of_ne hne with hlt | hgt
          · have := coefficientAt_lt_of_adjusted_lt hzy hx hy hlt
            omega
          · exact hgt

def isWhole (x : Decimal) : Bool :=
  x.isZero || ((-x.exponent).toNat < x.digits && x.coefficient % 10 ^ (-x.exponent).toNat == 0)

theorem isWhole_iff (x : Decimal) :
    x.isWhole = true ↔ x.coefficient % 10 ^ (-x.exponent).toNat = 0 := by
  simp only [isWhole, isZero, Bool.or_eq_true, beq_iff_eq, Bool.and_eq_true, decide_eq_true_eq]
  constructor
  · rintro (h | h)
    · rw [h, Nat.zero_mod]
    · exact h.2
  · intro h
    rcases Nat.eq_zero_or_pos x.coefficient with h0 | hpos
    · exact Or.inl h0
    · refine Or.inr ⟨?_, h⟩
      have hle := Nat.le_of_dvd hpos (Nat.dvd_of_mod_eq_zero h)
      have hlt := Nat.lt_of_le_of_lt hle x.coefficient_lt
      exact (Nat.pow_lt_pow_iff_right (by decide)).mp hlt

def wholePart (x : Decimal) : Nat :=
  if x.adjusted < 0 then 0
  else x.coefficientAt (min x.exponent 0) / 10 ^ (-x.exponent).toNat

/-! ### Exact arithmetic -/

/-- The exact sum, at the smaller of the two exponents. A sum of zero is negative only if both
terms are. -/
def add (x y : Decimal) : Decimal :=
  let e := min x.exponent y.exponent
  let s := x.valueAt e + y.valueAt e
  if s = 0 then ⟨x.negative && y.negative, 0, e⟩ else ⟨s < 0, s.natAbs, e⟩

/-- The exact product; the exponents are added. -/
def mul (x y : Decimal) : Decimal :=
  ⟨x.negative != y.negative, x.coefficient * y.coefficient, x.exponent + y.exponent⟩

/-- The remainder of `b^k` divided by `m`, by repeated squaring. -/
def powMod (b m : Nat) : Nat → Nat
  | 0 => 1 % m
  | k + 1 =>
    let half := powMod b m ((k + 1) / 2)
    let square := half * half % m
    if (k + 1) % 2 = 0 then square else square * b % m
decreasing_by omega

theorem powMod_eq (b m k : Nat) : powMod b m k = b ^ k % m := by
  induction k using Nat.strongRecOn with
  | ind k ih =>
    cases k with
    | zero => rw [powMod, Nat.pow_zero]
    | succ k =>
      have hsquare : b ^ ((k + 1) / 2) % m * (b ^ ((k + 1) / 2) % m) % m =
          b ^ (2 * ((k + 1) / 2)) % m := by
        rw [← Nat.mul_mod, ← Nat.pow_add, Nat.two_mul]
      simp only [powMod, ih ((k + 1) / 2) (by omega), hsquare]
      split
      · next h =>
        rw [show 2 * ((k + 1) / 2) = k + 1 by omega]
      · next h =>
        rw [Nat.mod_mul_mod, ← Nat.pow_succ, show (2 * ((k + 1) / 2)).succ = k + 1 by omega]

/-- The remainder of the division cut toward zero, for a non-zero `y`: it has the sign of `x` and
the smaller of the two exponents. -/
def rem (x y : Decimal) : Decimal :=
  let e := min x.exponent y.exponent
  if x.adjusted < y.adjusted then ⟨x.negative, x.coefficientAt e, e⟩
  else
    let d := y.coefficientAt e
    ⟨x.negative, x.coefficient * powMod 10 d (x.exponent - e).toNat % d, e⟩

/-- The coefficient of the remainder is the remainder of the coefficients at the common
exponent. -/
theorem rem_coefficient (x y : Decimal) (hy : y.isZero = false) :
    (x.rem y).coefficient = x.coefficientAt (min x.exponent y.exponent) %
      y.coefficientAt (min x.exponent y.exponent) := by
  have hx := Int.min_le_left x.exponent y.exponent
  have hye := Int.min_le_right x.exponent y.exponent
  simp only [rem]
  split
  · next h => exact (Nat.mod_eq_of_lt (coefficientAt_lt_of_adjusted_lt hy hx hye h)).symm
  · rw [powMod_eq, Nat.mul_mod_mod, x.coefficientAt_eq]

end Decimal
end PocketCalculator
