import PocketCalculator.Expression.Evaluate
import PocketCalculator.Proofs.Display.Amounts

/-!
# Results can be shown

What the evaluator returns can be shown, as a number (`exists_number_of_evaluate`) and as an amount
(`exists_amount_of_evaluate`).
-/

namespace PocketCalculator

variable {x : Decimal} {limits : Limits} {text : List Char}

theorem contains_of_evaluate (h : evaluate limits text = .ok x) : calculator.Contains x := by
  obtain ⟨_, _, h⟩ := bind_eq_ok.mp h
  obtain ⟨_, _, h⟩ := bind_eq_ok.mp h
  obtain ⟨value, _, h⟩ := bind_eq_ok.mp h
  obtain ⟨y, rfl⟩ := finite_of_inRange h
  exact contains_of_inRange h

theorem ten_pow_le_largest : (10 : ℚ) ^ (28 : ℤ) ≤ largest.magnitude := by
  have hcoefficient : 10 ^ 28 ≤ largest.coefficient := by decide +kernel
  rw [largest_magnitude_eq]
  exact_mod_cast hcoefficient

namespace Decimal

theorem magnitude_le_ten_pow (hdigits : x.digits ≤ 28) (hexponent : x.exponent ≤ 0) :
    x.magnitude ≤ 10 ^ (28 : ℤ) := by
  have hcoefficient : x.coefficient ≤ 10 ^ 28 :=
    (Nat.lt_of_lt_of_le x.coefficient_lt (Nat.pow_le_pow_right (by decide) hdigits)).le
  have hpow : (10 : ℚ) ^ x.exponent ≤ 1 := zpow_le_one_of_nonpos₀ (by norm_num) hexponent
  exact (mul_le_of_le_one_right (by positivity) hpow).trans (by exact_mod_cast hcoefficient)

end Decimal

namespace Decimal.IsResult

theorem displayable (hx : x.IsResult) (hcontains : calculator.Contains x) : x.Displayable where
  exponent_ge := hcontains.finest_le
  adjusted_le := hcontains.adjusted_le
  adjusted_lt := by
    intro hnonzero
    have hlt := Decimal.lt_of_ten_zpow_lt
      (((Decimal.le_magnitude hnonzero).trans hx.magnitude_le).trans_lt largest_magnitude_lt)
    simp only [Context.maxExponent]
    omega

/-- A result that has been rounded to places has no more digits than before. -/
theorem representable_roundedTo (hx : x.IsResult) {places : ℕ}
    (hplaces : places ≤ Display.mostPlaces) : Representable (roundedTo places x.toRat) := by
  have hmost : Display.mostPlaces = 900000 := rfl
  have hmin : Context.minExponent ≤ -(places : ℤ) := by
    simp only [Context.minExponent]
    omega
  have hdigits := hx.digits_le
  rcases Int.lt_or_le x.exponent (-(places : ℤ)) with hlt | hle
  · have hcut := Decimal.digits_toExponent_le .away hlt
    have hadjusted : x.adjusted = x.exponent + x.digits - 1 := rfl
    have hpos := x.digits_pos
    have hexponent := Decimal.toExponent_exponent .away x (-(places : ℤ))
    have hshort : (x.toExponent .away (-(places : ℤ))).digits ≤ 28 := by omega
    rw [← x.toRat_toExponent_away]
    refine Decimal.representable_toRat hshort (hmin.trans hexponent.ge) ?_
    exact (Decimal.magnitude_le_ten_pow hshort (by omega)).trans ten_pow_le_largest
  · rw [Decimal.roundedTo_toRat_of_le hle]
    exact Decimal.representable_toRat hdigits (hmin.trans hle) hx.magnitude_le

end Decimal.IsResult

theorem exists_number_of_evaluate (h : evaluate limits text = .ok x) :
    ∃ result, Display.number Display.standardPlaces (.finite x) = .ok result ∧
      Display.IsNumberText 8 result ∧ Denotes result (roundedTo 8 x.toRat) := by
  have hresult : x.IsResult := (ensures_evaluate limits text).of_ok h
  exact Display.exists_number (hresult.displayable (contains_of_evaluate h)) (by decide)

theorem keeps_numeral_chars (c : Char) (h : c = '-' ∨ c = '.' ∨ c.isDigit = true) :
    decide (c ≠ '’') = true := by
  refine decide_eq_true ?_
  rintro rfl
  exact absurd h (by decide)

theorem exists_amount_of_evaluate (h : evaluate limits text = .ok x) :
    ∃ money, Display.amount Display.moneyPlaces Display.standardSeparator (.finite x) = .ok money ∧
      Denotes (money.filter (· ≠ '’')) (roundedTo 2 x.toRat) := by
  have hresult : x.IsResult := (ensures_evaluate limits text).of_ok h
  have htwo : 2 ≤ Display.mostPlaces := by decide
  exact Display.exists_amount keeps_numeral_chars (by decide)
    (hresult.displayable (contains_of_evaluate h)) htwo
    fun _ => hresult.representable_roundedTo htwo

end PocketCalculator
