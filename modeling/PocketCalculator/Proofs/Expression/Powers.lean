import PocketCalculator.Expression.Unary
import PocketCalculator.Proofs.Decimal.Order
import PocketCalculator.Proofs.Expression.Precision

/-!
# Powers are products

A power is multiplied up from one, and only the last product is brought into range. Squares and
cubes come out as if they were calculated with the multiplication sign (`powers_eq_products`). The
factor one can change only decimals whose squares vanish, and a square that is too large is not made
smaller by another factor.
-/

namespace PocketCalculator

open Context

theorem Decimal.isZero_mul (x y : Decimal) : (x.mul y).isZero = (x.isZero || y.isZero) := by
  simp only [isZero, mul, Nat.mul_eq_zero, Bool.beq_eq_decide_eq, Bool.decide_or]

theorem Decimal.ofNat_one_mul (x : Decimal) : (Decimal.ofNat 1).mul x = x := by
  simp [mul, ofNat]

/-- The power of ten as a decimal. -/
def Decimal.tenPower (e : ℤ) : Decimal := ⟨false, 1, e⟩

theorem Decimal.magnitude_tenPower (e : ℤ) : (tenPower e).magnitude = 10 ^ e := by
  rw [magnitude, tenPower, Nat.cast_one, one_mul]

theorem contains_tenPower {e : ℤ} (hlow : -1000026 ≤ e) (hhigh : e ≤ 999999) :
    calculator.Contains (.tenPower e) := by
  have hone : Decimal.digitCount 1 = 1 := by decide +kernel
  have hadjusted : (Decimal.tenPower e).adjusted = e + (1 : ℕ) - 1 := by
    rw [← hone]
    rfl
  refine ⟨?_, hlow, ?_⟩
  · exact hone.trans_le (by decide)
  · simp only [hadjusted, maxExponent]
    omega

/-! ### Products -/

section Products

variable {x y r : Decimal}

theorem round_of_isZero (hx : x.isZero = true) :
    calculator.round x = .ok ⟨x.negative, 0, max (-1000026) (min x.exponent 999999)⟩ := by
  have hcoefficient : x.coefficient = 0 := by simpa [Decimal.isZero] using hx
  rw [← hcoefficient]
  exact if_pos hx

/-- The product of two decimals that are very small is zero. -/
theorem round_mul_of_small (hx : x.isZero = false) (hy : y.isZero = false)
    (hxsmall : x.magnitude ≤ 10 ^ (-999999 : ℤ)) (hysmall : y.magnitude ≤ 10 ^ (-999999 : ℤ)) :
    calculator.round (x.mul y) = .ok ⟨x.negative != y.negative, 0, -1000026⟩ := by
  have hzero : (x.mul y).isZero = false := by rw [Decimal.isZero_mul, hx, hy, Bool.or_self]
  refine round_of_vanishing rfl (by decide) hzero ?_
  rw [Decimal.magnitude_mul]
  calc 2 * (x.magnitude * y.magnitude)
      ≤ 10 ^ (1 : ℤ) * (10 ^ (-999999 : ℤ) * 10 ^ (-999999 : ℤ)) :=
        mul_le_mul (by norm_num)
          (mul_le_mul hxsmall hysmall y.magnitude_nonneg (by positivity))
          (mul_nonneg x.magnitude_nonneg y.magnitude_nonneg) (by positivity)
    _ = 10 ^ (-1999997 : ℤ) := by
        rw [← zpow_add₀ (by norm_num), ← zpow_add₀ (by norm_num)]
        norm_num
    _ ≤ 10 ^ calculator.finestExponent := zpow_le_zpow_right₀ (by norm_num) (by decide)

/-- A decimal of the calculator's size that the context cannot hold is zero, or it is very small. -/
theorem contains_or_small (hdigits : x.digits ≤ 28) (hmagnitude : x.magnitude ≤ largest.magnitude)
    (hx : x.isZero = false) :
    calculator.Contains x ∨ x.magnitude ≤ 10 ^ (-999999 : ℤ) ∧ x.exponent < -1000026 := by
  have hadjusted : x.adjusted = x.exponent + x.digits - 1 := rfl
  rcases Int.lt_or_le x.exponent (-1000026) with hlt | hle
  · refine Or.inr ⟨?_, hlt⟩
    exact x.magnitude_lt.le.trans (zpow_le_zpow_right₀ (by norm_num) (by omega))
  · refine Or.inl ⟨hdigits, hle, ?_⟩
    have hhigh := Decimal.lt_of_ten_zpow_lt
      (((Decimal.le_magnitude hx).trans hmagnitude).trans_lt largest_magnitude_lt)
    simp only [maxExponent]
    omega

/-- It makes no difference to a square that its first factor has been rounded. -/
theorem exists_round_mul_self (hdigits : x.digits ≤ 28)
    (hmagnitude : x.magnitude ≤ largest.magnitude) :
    ∃ r, calculator.round x = .ok r ∧ calculator.round (r.mul x) = calculator.round (x.mul x) := by
  cases hx : x.isZero with
  | true =>
    refine ⟨_, round_of_isZero hx, ?_⟩
    have hzero : ∀ y : Decimal, (y.mul x).isZero = true := fun y => by
      rw [Decimal.isZero_mul, hx, Bool.or_true]
    rw [round_of_isZero (hzero _), round_of_isZero (hzero _)]
    simp only [Decimal.mul, Except.ok.injEq, Decimal.mk.injEq, true_and]
    omega
  | false =>
    rcases contains_or_small hdigits hmagnitude hx with hcontains | ⟨hsmall, hexponent⟩
    · exact ⟨x, round_of_contains hcontains, rfl⟩
    · have htiny : x.magnitude ≤ (Decimal.tenPower (-999999)).magnitude := by
        rwa [Decimal.magnitude_tenPower]
      have hten := contains_tenPower (e := -999999) (by decide) (by decide)
      obtain ⟨r, hr⟩ := exists_round_of_magnitude_le (by decide) hten htiny
      have hrtiny := magnitude_le_of_round (by decide) hten hr htiny
      rw [Decimal.magnitude_tenPower] at hrtiny
      refine ⟨r, hr, ?_⟩
      rw [round_mul_of_small hx hx hsmall hsmall]
      cases hrzero : r.isZero with
      | false => rw [round_mul_of_small hrzero hx hrtiny hsmall, negative_of_round hr]
      | true =>
        -- Then `x` vanishes, and `r` is the zero of the smallest step.
        have hvanishing := vanishing_of_round (by decide) hx hr hrzero
        have hfinest := hr.symm.trans (round_of_vanishing rfl (by decide) hx hvanishing)
        cases hfinest
        have hzero : (Decimal.mul ⟨x.negative, 0, calculator.finestExponent⟩ x).isZero = true := by
          rw [Decimal.isZero_mul]
          rfl
        rw [round_of_isZero hzero]
        have hvalue : calculator.finestExponent = -1000026 := rfl
        simp only [Decimal.mul, Except.ok.injEq, Decimal.mk.injEq, true_and, hvalue]
        omega

/-- A product of two decimals of the calculator's size does not overflow. -/
theorem exists_round_mul (hx : x.magnitude ≤ largest.magnitude)
    (hy : y.magnitude ≤ largest.magnitude) : ∃ r, calculator.round (x.mul y) = .ok r := by
  have hten := contains_tenPower (e := 618) (by decide) (by decide)
  refine exists_round_of_magnitude_le (by decide) hten ?_
  rw [Decimal.magnitude_mul, Decimal.magnitude_tenPower]
  calc x.magnitude * y.magnitude ≤ 10 ^ (309 : ℤ) * 10 ^ (309 : ℤ) :=
        mul_le_mul (hx.trans largest_magnitude_lt.le) (hy.trans largest_magnitude_lt.le)
          y.magnitude_nonneg (by positivity)
    _ = 10 ^ (618 : ℤ) := by rw [← zpow_add₀ (by norm_num)]; norm_num

theorem one_le_largest : 1 ≤ largest.magnitude := by
  have hone : 1 ≤ largest.coefficient := by decide +kernel
  rw [largest_magnitude_eq]
  exact_mod_cast hone

/-- A square that is too large is that of a factor which does not make it smaller. -/
theorem one_le_of_square_large (hr : calculator.round (x.mul x) = .ok r)
    (hlarge : largest.magnitude < r.magnitude) : 1 ≤ x.magnitude := by
  by_contra hless
  have hless := (not_le.mp hless).le
  have hten := contains_tenPower (e := 0) (by decide) (by decide)
  have hsquare : (x.mul x).magnitude ≤ (Decimal.tenPower 0).magnitude := by
    rw [Decimal.magnitude_mul, Decimal.magnitude_tenPower, zpow_zero]
    exact mul_le_one₀ hless x.magnitude_nonneg hless
  have hrone := magnitude_le_of_round (by decide) hten hr hsquare
  rw [Decimal.magnitude_tenPower, zpow_zero] at hrone
  exact absurd (hrone.trans one_le_largest) (not_le.mpr hlarge)

theorem large_of_round_mul {s : Decimal} (hr : calculator.round (x.mul x) = .ok r)
    (hlarge : largest.magnitude < r.magnitude) (hs : calculator.round (r.mul x) = .ok s) :
    largest.magnitude < s.magnitude := by
  have hle : r.magnitude ≤ (r.mul x).magnitude := by
    rw [Decimal.magnitude_mul]
    exact le_mul_of_one_le_right r.magnitude_nonneg (one_le_of_square_large hr hlarge)
  exact hlarge.trans_le
    (le_magnitude_of_round (by decide) (contains_of_round (by decide) hr) hs hle)

/-! ### What has been rounded -/

theorem inRange_of_contains (hr : calculator.Contains r) :
    inRange (.finite r) = if r.magnitude ≤ largest.magnitude
      then .ok (if r.isZero then r.abs else r) else .error .outOfRange := by
  rw [inRange_of_plus (plus_of_contains hr), Decimal.toRat_unsigned_zero, Decimal.abs_toRat]

end Products

/-! ### Squares and cubes -/

section Powers

variable {x : Decimal}

theorem exists_product_two (hdigits : x.digits ≤ 28)
    (hmagnitude : x.magnitude ≤ largest.magnitude) :
    ∃ r, calculator.round (x.mul x) = .ok r ∧ product x 2 = .ok r := by
  obtain ⟨r, hr⟩ := exists_round_mul hmagnitude hmagnitude
  obtain ⟨first, hfirst, hsame⟩ := exists_round_mul_self hdigits hmagnitude
  have hone : product x 1 = .ok first := by
    show calculator.round ((Decimal.ofNat 1).mul x) = .ok first
    rw [Decimal.ofNat_one_mul, hfirst]
  refine ⟨r, hr, ?_⟩
  show (do calculator.round ((← product x 1).mul x)) = .ok r
  rw [hone, ok_bind, hsame, hr]

theorem power_of_product {n : ℕ} {y : Decimal} (h : product x n = .ok y) :
    power n (.finite x) = inRange (.finite y) := by
  simp only [power, h]

theorem outOfRange_of_power {n : ℕ} {fault : Fault} (h : power n (.finite x) = .error fault) :
    fault = .outOfRange := by
  cases hproduct : product x n with
  | error s =>
    simp only [power, hproduct] at h
    cases h
    rfl
  | ok y =>
    rw [power_of_product hproduct] at h
    exact outOfRange_of_inRange h

theorem mul_apply_of_round {y r : Decimal} (h : calculator.round (x.mul y) = .ok r) :
    Operator.mul.apply (.finite x) (.finite y) = (inRange (.finite r)).mapError .fault := by
  show settle (.finite <$> calculator.round (x.mul y)) = _
  rw [h]
  rfl

theorem cube_of_large_square {r : Decimal} (hr : calculator.round (x.mul x) = .ok r)
    (htwo : product x 2 = .ok r) (hlarge : largest.magnitude < r.magnitude) :
    power 3 (.finite x) = .error .outOfRange := by
  have hthree : product x 3 = calculator.round (r.mul x) := by
    show (do calculator.round ((← product x 2).mul x)) = _
    rw [htwo, ok_bind]
  cases hs : calculator.round (r.mul x) with
  | error signal => simp only [power, hthree, hs]
  | ok s =>
    have hslarge := large_of_round_mul hr hlarge hs
    rw [power_of_product (hthree.trans hs),
      inRange_of_contains (contains_of_round (by decide) hs), if_neg (not_le.mpr hslarge)]

/-- Squares and cubes are the products that the multiplication sign gives, or they are refused as
these are. -/
theorem powers_eq_products (hdigits : x.digits ≤ 28)
    (hmagnitude : x.magnitude ≤ largest.magnitude) :
    (Unary.square.apply (.finite x)).mapError .fault =
        Operator.mul.apply (.finite x) (.finite x) ∧
      (Unary.cube.apply (.finite x)).mapError .fault = (do
        let y ← Operator.mul.apply (.finite x) (.finite x)
        Operator.mul.apply (.finite y) (.finite x)) ∧
      ∀ op ∈ [Unary.square, Unary.cube], ∀ fault,
        op.apply (.finite x) = .error fault → fault = .outOfRange := by
  obtain ⟨r, hr, htwo⟩ := exists_product_two hdigits hmagnitude
  have hcontains := contains_of_round (by decide) hr
  have hsquare : power 2 (.finite x) = inRange (.finite r) := power_of_product htwo
  refine ⟨?_, ?_, ?_⟩
  · show (power 2 (.finite x)).mapError Failure.fault = _
    rw [hsquare, mul_apply_of_round hr]
  · show (power 3 (.finite x)).mapError Failure.fault = _
    rw [mul_apply_of_round hr, inRange_of_contains hcontains]
    rcases lt_or_ge largest.magnitude r.magnitude with hlarge | hle
    · rw [if_neg (not_le.mpr hlarge), cube_of_large_square hr htwo hlarge]
      rfl
    · have hpositive : r.negative = false :=
        (negative_of_round hr).trans (bne_self_eq_false x.negative)
      obtain ⟨s, hs⟩ := exists_round_mul hle hmagnitude
      have hthree : product x 3 = .ok s := by
        show (do calculator.round ((← product x 2).mul x)) = _
        rw [htwo, ok_bind, hs]
      rw [if_pos hle, Decimal.unsigned_zero_eq fun _ => hpositive, power_of_product hthree]
      exact (mul_apply_of_round hs).symm
  · intro op hop fault h
    simp only [List.mem_cons, List.not_mem_nil, or_false] at hop
    rcases hop with rfl | rfl
    · exact outOfRange_of_power h
    · exact outOfRange_of_power h

/-- Times one, this decimal is already a negative zero. -/
theorem powers_eq_products_of_tiny :
    let x : Decimal := ⟨true, 3, -1000030⟩
    calculator.round x = .ok ⟨true, 0, -1000026⟩ ∧
      Operator.mul.apply (.finite x) (.finite x) = .ok ⟨false, 0, -1000026⟩ ∧
      Unary.square.apply (.finite x) = .ok ⟨false, 0, -1000026⟩ ∧
      (Unary.cube.apply (.finite x)).mapError Failure.fault =
        Operator.mul.apply (.finite ⟨false, 0, -1000026⟩) (.finite x) := by
  intro x
  have hround : calculator.round x = .ok ⟨true, 0, -1000026⟩ := by decide +kernel
  have happly : Operator.mul.apply (.finite x) (.finite x) = .ok ⟨false, 0, -1000026⟩ := by
    decide +kernel
  have hmagnitude : x.magnitude ≤ largest.magnitude := by
    have hsmall : x.adjusted + 1 ≤ 0 := by decide +kernel
    calc x.magnitude ≤ 10 ^ (x.adjusted + 1) := x.magnitude_lt.le
      _ ≤ 10 ^ (0 : ℤ) := zpow_le_zpow_right₀ (by norm_num) hsmall
      _ = 1 := zpow_zero _
      _ ≤ largest.magnitude := one_le_largest
  obtain ⟨hsquare, hcube, _⟩ := powers_eq_products (x := x) (by decide +kernel) hmagnitude
  rw [happly] at hsquare hcube
  exact ⟨hround, happly, mapError_eq_ok.mp hsquare, hcube⟩

end Powers

end PocketCalculator
