import PocketCalculator.Proofs.Decimal.Quotient
import PocketCalculator.Proofs.Expression.Bounds

/-!
# Correctly rounded operations

Sums, differences, products and quotients are the exact results, rounded once
(`apply_eq_significant`). A remainder is exact, however long the quotient is (`apply_rem`).
-/

namespace PocketCalculator

open Context

/-- The exact result of an operation. -/
def Operator.result : Operator → ℚ → ℚ → ℚ
  | .add, p, q => p + q
  | .sub, p, q => p - q
  | .mul, p, q => p * q
  | .div, p, q => p / q
  | .rem, p, q => p - q * truncate (p / q)

section Settled

variable {x y : Decimal}

theorem inRange_of_plus (h : calculator.plus x = .ok y) :
    inRange (.finite x) = if |y.toRat| ≤ largest.magnitude then .ok y else .error .outOfRange := by
  have hexceeds : y.exceeds largest = true ↔ ¬ |y.toRat| ≤ largest.magnitude := by
    rw [Decimal.exceeds_iff_lt, Decimal.abs_toRat, not_le]
  simp only [inRange, h]
  by_cases hle : |y.toRat| ≤ largest.magnitude
  · rw [if_pos hle, if_neg fun hlarge => hexceeds.mp hlarge hle]
  · rw [if_neg hle, if_pos (hexceeds.mpr hle)]

theorem settle_of_plus (h : calculator.plus x = .ok y) :
    settle (.finite <$> .ok x) =
      if |y.toRat| ≤ largest.magnitude then .ok y else .error (.fault .outOfRange) := by
  show (inRange (.finite x)).mapError Failure.fault = _
  rw [inRange_of_plus h]
  split <;> rfl

end Settled

/-! ### Operations that round -/

section Rounded

variable {op : Operator} {a b : Decimal}

theorem exists_rounded_eq_significant (hop : op ≠ .rem) (hb : op = .div → b.isZero = false)
    (h : WithinExponents (op.result a.toRat b.toRat)) :
    ∃ d, op.rounded a b = .ok d ∧ d.toRat = significant 28 (op.result a.toRat b.toRat) := by
  have hround : ∀ {x : Decimal}, WithinExponents x.toRat →
      ∃ d, calculator.round x = .ok d ∧ d.toRat = significant 28 x.toRat :=
    exists_round_eq_significant rfl (by decide)
  cases op with
  | add =>
    rw [Operator.result, ← Decimal.toRat_add] at h ⊢
    exact hround h
  | sub =>
    rw [Operator.result, sub_eq_add_neg, ← Decimal.toRat_flip, ← Decimal.toRat_add] at h ⊢
    exact hround h
  | mul =>
    rw [Operator.result, ← Decimal.toRat_mul] at h ⊢
    exact hround h
  | div => exact exists_divide_eq_significant rfl (by decide) (hb rfl) h
  | rem => exact absurd rfl hop

theorem contains_of_rounded {d : Decimal} (hop : op ≠ .rem) (h : op.rounded a b = .ok d) :
    calculator.Contains d := by
  cases op with
  | add => exact contains_of_round (by decide) h
  | sub => exact contains_of_round (by decide) h
  | mul => exact contains_of_round (by decide) h
  | div =>
    simp only [Operator.rounded, divide] at h
    split at h
    · cases h
    · split at h
      · exact contains_of_round (by decide) h
      · exact contains_of_round (by decide) h
  | rem => exact absurd rfl hop

/-- The result of an operation is the exact one, rounded once to 28 digits. What is rounded again
stays the same number, where only a zero may lose its sign. -/
theorem apply_eq_significant (hop : op ≠ .rem) (hb : op = .div → b.isZero = false)
    (h : WithinExponents (op.result a.toRat b.toRat)) :
    ∃ d d', op.rounded a b = .ok d ∧ d.toRat = significant 28 (op.result a.toRat b.toRat) ∧
      calculator.plus d = .ok d' ∧ d'.toRat = d.toRat ∧ (d.isZero = false → d' = d) ∧
      op.apply (.finite a) (.finite b) =
        if |significant 28 (op.result a.toRat b.toRat)| ≤ largest.magnitude then .ok d'
        else .error (.fault .outOfRange) := by
  obtain ⟨d, hd, hvalue⟩ := exists_rounded_eq_significant hop hb h
  have hplus := plus_of_contains (contains_of_rounded hop hd)
  have hsame : (if d.isZero then d.abs else d).toRat = d.toRat := by
    split
    · next hzero => exact Decimal.toRat_abs_of_isZero hzero
    · rfl
  have hdivisor : op.divides = true → b.isZero = false := by
    cases op with
    | div => exact fun _ => hb rfl
    | rem => exact absurd rfl hop
    | _ => exact fun hdivides => by cases hdivides
  refine ⟨d, _, hd, hvalue, hplus, hsame, fun hzero => by simp [hzero], ?_⟩
  rw [Operator.apply_finite hdivisor, hd, settle_of_plus hplus, hsame, hvalue]

/-- A tie goes to the even neighbour, also where the carry brings a new digit. -/
theorem apply_eq_significant_of_tie :
    ∃ d, Operator.add.apply (.finite ⟨false, 10 ^ 28 - 1, 0⟩) (.finite ⟨false, 5, -1⟩) = .ok d ∧
      d.toRat = 10 ^ 28 := by
  have hresult : Operator.add.result (Decimal.toRat ⟨false, 10 ^ 28 - 1, 0⟩)
      (Decimal.toRat ⟨false, 5, -1⟩) = 10 ^ 28 - 1 / 2 := by
    norm_num [Operator.result, Decimal.toRat, Decimal.magnitude]
  have hlow : (10 : ℚ) ^ (27 : ℤ) ≤ |10 ^ 28 - 1 / 2| := by norm_num [abs_of_pos]
  have hhigh : |(10 : ℚ) ^ 28 - 1 / 2| < 10 ^ (27 + 1 : ℤ) := by norm_num [abs_of_pos]
  have hsignificant : significant 28 (10 ^ 28 - 1 / 2) = 10 ^ 28 := by
    have hplace : lastPlace 28 (10 ^ 28 - 1 / 2) = 0 := by
      rw [lastPlace, log_eq hlow hhigh]
      norm_num
    rw [significant, hplace]
    norm_num [halfEven]
  have hwithin : WithinExponents (10 ^ 28 - 1 / 2) :=
    Or.inr ⟨(zpow_le_zpow_right₀ (by norm_num) (by decide)).trans hlow,
      hhigh.trans_le (zpow_le_zpow_right₀ (by norm_num) (by decide))⟩
  obtain ⟨d, d', _, hvalue, _, hsame, _, happly⟩ :=
    @apply_eq_significant .add _ _ (by decide) (by decide) (hresult ▸ hwithin)
  rw [hresult, hsignificant] at hvalue happly
  have hle : |(10 : ℚ) ^ 28| ≤ largest.magnitude := by
    have hcoefficient : 10 ^ 28 ≤ largest.coefficient := by decide +kernel
    rw [abs_of_pos (by positivity), largest_magnitude_eq]
    exact_mod_cast hcoefficient
  rw [if_pos hle] at happly
  exact ⟨d', happly, hsame.trans hvalue⟩

end Rounded

/-! ### Remainders -/

/-- The first and the last digit are at most 900000 places from the point. -/
structure Decimal.Moderate (x : Decimal) : Prop where
  exponent_mem : -900000 ≤ x.exponent ∧ x.exponent ≤ 900000
  adjusted_mem : -900000 ≤ x.adjusted ∧ x.adjusted ≤ 900000

section Remainder

variable {a b : Decimal} {p : ℕ}

theorem Decimal.hasDigits_rem (ha : a.digits ≤ p) (hb : b.digits ≤ p) (hzero : b.isZero = false) :
    HasDigits p (a.rem b).toRat := by
  refine ⟨(a.rem b).coefficient, (a.rem b).exponent, ?_, abs_toRat _⟩
  rw [rem_coefficient a b hzero]
  rcases Int.le_total a.exponent b.exponent with hle | hle
  · rw [Int.min_eq_left hle, coefficientAt_self]
    exact (Nat.mod_le ..).trans_lt
      (a.coefficient_lt.trans_le (Nat.pow_le_pow_right (by norm_num) ha))
  · rw [Int.min_eq_right hle, b.coefficientAt_self]
    exact (Nat.mod_lt _ (coefficient_pos hzero)).trans
      (b.coefficient_lt.trans_le (Nat.pow_le_pow_right (by norm_num) hb))

theorem withinExponents_rem (ha : a.Moderate) (hb : b.Moderate) (hzero : b.isZero = false) :
    WithinExponents (a.rem b).toRat := by
  have hexponent := Decimal.exponent_rem a b
  obtain ⟨halow, _⟩ := ha.exponent_mem
  obtain ⟨hblow, _⟩ := hb.exponent_mem
  obtain ⟨_, hbhigh⟩ := hb.adjusted_mem
  rcases Nat.eq_zero_or_pos (a.rem b).coefficient with hcoefficient | hpos
  · exact Or.inl ((Decimal.toRat_eq_zero _).mpr hcoefficient)
  right
  rw [Decimal.abs_toRat]
  constructor
  · have hone : (1 : ℚ) ≤ (a.rem b).coefficient := by exact_mod_cast hpos
    calc (10 : ℚ) ^ minExponent ≤ 10 ^ (a.rem b).exponent :=
          zpow_le_zpow_right₀ (by norm_num) (by simp only [minExponent]; omega)
      _ ≤ (a.rem b).magnitude := le_mul_of_one_le_left (by positivity) hone
  · calc (a.rem b).magnitude < b.magnitude := Decimal.magnitude_rem_lt hzero
      _ < 10 ^ (b.adjusted + 1) := b.magnitude_lt
      _ ≤ 10 ^ maxExponent := zpow_le_zpow_right₀ (by norm_num) (by simp only [maxExponent]; omega)

theorem exists_rounded_rem (ha : a.Moderate) (hb : b.Moderate) (hzero : b.isZero = false) :
    ∃ z, Operator.rem.rounded a b = .ok z ∧ z.negative = a.negative ∧
      (HasDigits 28 (a.rem b).toRat → z.toRat = (a.rem b).toRat) := by
  have hroom : a.adjusted - b.adjusted + 30 ≤ maxPrecision := by
    have hahigh := ha.adjusted_mem.2
    have hblow := hb.adjusted_mem.1
    simp only [maxPrecision]
    omega
  obtain ⟨c, hc, hprecision⟩ := exists_remainderContext hroom
  have hties := (precision_of_remainderContext hc).2
  obtain ⟨z, hz, hvalue⟩ := exists_round_eq_significant hties
    (Nat.lt_of_lt_of_le (by decide) hprecision) (withinExponents_rem ha hb hzero)
  refine ⟨z, bind_eq_ok.mpr ⟨c, hc, hz⟩, ?_, fun hdigits => ?_⟩
  · rw [negative_of_round hz, Decimal.negative_rem]
  · rw [hvalue, significant_of_hasDigits (hdigits.mono hprecision)]

/-- The working precision of a remainder has room for the whole quotient, so no signal is raised. A
remainder of at most 28 digits is rounded neither there nor afterwards. -/
theorem apply_rem {r : ℚ} (ha : a.Moderate) (hb : b.Moderate) (hzero : b.isZero = false)
    (hr : r = Operator.rem.result a.toRat b.toRat) :
    (∀ e, Operator.rem.apply (.finite a) (.finite b) = .error e → e = .fault .outOfRange) ∧
      (a.digits ≤ 28 → b.digits ≤ 28 → HasDigits 28 r) ∧
      (HasDigits 28 r → |r| ≤ largest.magnitude →
        ∃ d, Operator.rem.apply (.finite a) (.finite b) = .ok d ∧ d.toRat = r ∧
          (d.isZero = true ∨ d.negative = a.negative) ∧ d.magnitude < b.magnitude) ∧
      (HasDigits 28 r → largest.magnitude < |r| →
        Operator.rem.apply (.finite a) (.finite b) = .error (.fault .outOfRange)) := by
  rw [Operator.result, ← Decimal.toRat_rem hzero] at hr
  subst hr
  obtain ⟨z, hz, hnegative, hexact⟩ := exists_rounded_rem ha hb hzero
  have happly : Operator.rem.apply (.finite a) (.finite b) = settle (.finite <$> .ok z) := by
    rw [Operator.apply_finite fun _ => hzero, hz]
  have hplus : HasDigits 28 (a.rem b).toRat → ∃ d, calculator.plus z = .ok d ∧
      d.toRat = (a.rem b).toRat ∧ (d.isZero = true ∨ d.negative = a.negative) := by
    intro hdigits
    have hvalue := hexact hdigits
    have hwithin := withinExponents_rem ha hb hzero
    rw [← hvalue] at hwithin hdigits ⊢
    obtain ⟨d, hd, hsignificant, hsign⟩ :=
      exists_plus_eq_significant (c := calculator) rfl (by decide) hwithin
    exact ⟨d, hd, hsignificant.trans (significant_of_hasDigits hdigits), hnegative ▸ hsign⟩
  rw [happly]
  refine ⟨fun e he => outOfRange_of_settle he,
    fun hadigits hbdigits => Decimal.hasDigits_rem hadigits hbdigits hzero,
    fun hdigits hle => ?_, fun hdigits hlt => ?_⟩
  · obtain ⟨d, hd, hvalue, hsign⟩ := hplus hdigits
    refine ⟨d, ?_, hvalue, hsign, ?_⟩
    · rw [settle_of_plus hd, hvalue, if_pos hle]
    · rw [← Decimal.abs_toRat, hvalue, Decimal.abs_toRat]
      exact Decimal.magnitude_rem_lt hzero
  · obtain ⟨d, hd, hvalue, _⟩ := hplus hdigits
    rw [settle_of_plus hd, hvalue, if_neg (not_le.mpr hlt)]

/-- The quotient has 40 digits. -/
theorem apply_rem_of_long_quotient :
    ∃ d, Operator.rem.apply (.finite ⟨true, 1, 40⟩) (.finite ⟨false, 7, 0⟩) = .ok d ∧
      d.toRat = -4 ∧ d.negative = true := by
  have hdiv : truncate (10 ^ 40 / 7) = (10 ^ 40 / 7 : ℕ) := by
    have hcast := truncate_natCast_div (10 ^ 40) 7
    rwa [Nat.cast_pow, Nat.cast_ofNat, Nat.cast_ofNat] at hcast
  have hr : -4 = Operator.rem.result (Decimal.toRat ⟨true, 1, 40⟩)
      (Decimal.toRat ⟨false, 7, 0⟩) := by
    have hdividend : Decimal.toRat ⟨true, 1, 40⟩ = -10 ^ 40 := by
      norm_num [Decimal.toRat, Decimal.magnitude]
    have hdivisor : Decimal.toRat ⟨false, 7, 0⟩ = 7 := by
      norm_num [Decimal.toRat, Decimal.magnitude]
    rw [Operator.result, hdividend, hdivisor, neg_div, truncate_neg, hdiv]
    norm_num
  have ha : Decimal.Moderate ⟨true, 1, 40⟩ := ⟨by decide +kernel, by decide +kernel⟩
  have hb : Decimal.Moderate ⟨false, 7, 0⟩ := ⟨by decide +kernel, by decide +kernel⟩
  have hle : |(-4 : ℚ)| ≤ largest.magnitude := by
    have hcoefficient : 4 ≤ largest.coefficient := by decide +kernel
    rw [abs_neg, abs_of_pos (by norm_num), largest_magnitude_eq]
    exact_mod_cast hcoefficient
  obtain ⟨_, hdigits, hexact, _⟩ := apply_rem ha hb (by decide) hr
  obtain ⟨d, hd, hvalue, hsign, _⟩ := hexact (hdigits (by decide +kernel) (by decide +kernel)) hle
  refine ⟨d, hd, hvalue, hsign.resolve_left fun hzero => ?_⟩
  rw [(Decimal.isZero_iff d).mp hzero] at hvalue
  norm_num at hvalue

end Remainder

end PocketCalculator
