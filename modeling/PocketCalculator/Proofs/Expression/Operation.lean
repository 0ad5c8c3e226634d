import PocketCalculator.Expression.Operation
import PocketCalculator.Proofs.Decimal.Rounded
import PocketCalculator.Proofs.Decimal.Value
import PocketCalculator.Proofs.Outcome

/-!
# Operations on decimals

Every operation on decimals forms a rounded result, which is then brought into range. What comes out
of this has at most 28 digits and is not too large.
-/

namespace PocketCalculator

/-! ### Rounded results -/

section Finite

variable (c : Context) (x y : Decimal)

theorem Context.add_finite : c.add (.finite x) (.finite y) = .finite <$> c.round (x.add y) := by
  rw [← c.sum_eq_round_add]
  rfl

theorem Context.sub_finite :
    c.sub (.finite x) (.finite y) = .finite <$> c.round (x.add y.flip) := by
  rw [← c.sum_eq_round_add]
  rfl

theorem Context.mul_finite : c.mul (.finite x) (.finite y) = .finite <$> c.round (x.mul y) := rfl

theorem Context.lacksQuotient_eq_false {y : Decimal} (h : y.isZero = false)
    (hroom : x.adjusted - y.adjusted < c.precision) : c.lacksQuotient x y = false := by
  obtain ⟨z, hz⟩ : ∃ z : Decimal, z = ⟨y.negative, y.coefficient, y.exponent + c.precision⟩ :=
    ⟨_, rfl⟩
  have hzero : z.isZero = false := hz ▸ h
  have hadjusted : z.adjusted = y.adjusted + c.precision := by
    rw [hz]
    simp only [Decimal.adjusted, Decimal.digits]
    omega
  rw [lacksQuotient, ← hz, Bool.not_eq_false', Decimal.exceeds_iff_lt]
  calc x.magnitude < 10 ^ (x.adjusted + 1) := x.magnitude_lt
    _ ≤ 10 ^ z.adjusted := zpow_le_zpow_right₀ (by norm_num) (by omega)
    _ ≤ z.magnitude := Decimal.le_magnitude hzero

theorem Context.rem_finite {y : Decimal} (h : y.isZero = false)
    (hroom : x.adjusted - y.adjusted < c.precision) :
    c.rem (.finite x) (.finite y) = .finite <$> c.round (x.rem y) := by
  show (if y.isZero || c.lacksQuotient x y then _ else _) = _
  rw [if_neg (by simp [h, c.lacksQuotient_eq_false x h hroom])]

end Finite

/-- A quotient has at most one digit more than the distance of the first digits, so 30 more digits
than this distance leave room for it. -/
theorem precision_of_remainderContext {c : Context} {x y : Decimal}
    (h : remainderContext (.finite x) (.finite y) = .ok c) :
    (c.precision : ℤ) = max 28 (x.adjusted - y.adjusted + 30) ∧ c.ties = calculator.ties := by
  have hcontext : Context.ofPrecision (max 28 (x.adjusted - y.adjusted + 30)) calculator.ties =
      .ok c := h
  unfold Context.ofPrecision at hcontext
  split at hcontext
  · cases hcontext
  · split at hcontext
    · cases hcontext
    · cases hcontext
      refine ⟨?_, rfl⟩
      show ((max 28 (x.adjusted - y.adjusted + 30)).toNat : ℤ) = _
      omega

namespace Operator

/-- The operation divides, so it is refused for a divisor of zero. -/
def divides : Operator → Bool
  | .div | .rem => true
  | _ => false

/-- The rounded result, for a divisor other than zero. -/
def rounded : Operator → Decimal → Decimal → Except Signal Decimal
  | .add, x, y => calculator.round (x.add y)
  | .sub, x, y => calculator.round (x.add y.flip)
  | .mul, x, y => calculator.round (x.mul y)
  | .div, x, y => calculator.divide x y
  | .rem, x, y => do (← remainderContext (.finite x) (.finite y)).round (x.rem y)

theorem apply_finite {op : Operator} {x y : Decimal} (h : op.divides = true → y.isZero = false) :
    op.apply (.finite x) (.finite y) = settle (.finite <$> op.rounded x y) := by
  cases op with
  | add => exact congrArg settle (calculator.add_finite x y)
  | sub => exact congrArg settle (calculator.sub_finite x y)
  | mul => rfl
  | div =>
    have hzero : requireNonzero (.finite y) .divideByZero = .ok () := by
      simp only [requireNonzero, Extended.isZero, h rfl]
    simp only [apply, hzero, ok_bind]
    rfl
  | rem =>
    have hzero : requireNonzero (.finite y) .moduloByZero = .ok () := by
      simp only [requireNonzero, Extended.isZero, h rfl]
    simp only [apply, hzero, ok_bind, rounded]
    cases hc : remainderContext (.finite x) (.finite y) with
    | error s => rfl
    | ok c =>
      have hprecision := (precision_of_remainderContext hc).1
      rw [ok_bind, ok_bind, c.rem_finite x (h rfl) (by omega)]

def zeroFault : Operator → Fault
  | .rem => .moduloByZero
  | _ => .divideByZero

theorem apply_of_isZero {op : Operator} {x y : Decimal} (h : op.divides = true)
    (hy : y.isZero = true) : op.apply (.finite x) (.finite y) = .error (.fault op.zeroFault) := by
  have hzero : ∀ fault, requireNonzero (.finite y) fault = .error (.fault fault) := by
    intro fault
    simp only [requireNonzero, Extended.isZero, hy]
  cases op with
  | add => cases h
  | sub => cases h
  | mul => cases h
  | div => simp only [apply, hzero, error_bind, zeroFault]
  | rem => simp only [apply, hzero, error_bind, zeroFault]

end Operator

/-- The context of a remainder is refused only for operands that are quadrillions of digits
apart. -/
theorem exists_remainderContext {x y : Decimal}
    (h : x.adjusted - y.adjusted + 30 ≤ Context.maxPrecision) :
    ∃ c, remainderContext (.finite x) (.finite y) = .ok c ∧ calculator.precision ≤ c.precision := by
  have hmax : Context.maxPrecision = 999999999999999999 := rfl
  have hprecision : (calculator.precision : Int) = 28 := rfl
  obtain ⟨p, hp⟩ : ∃ p : Int, max (calculator.precision : Int) (x.adjusted - y.adjusted + 30) = p :=
    ⟨_, rfl⟩
  have hcontext : remainderContext (.finite x) (.finite y) =
      Context.ofPrecision p calculator.ties := by
    rw [← hp]
    rfl
  refine ⟨⟨p.toNat, calculator.ties⟩, ?_, ?_⟩
  · rw [hcontext, Context.ofPrecision, if_neg (by omega), if_neg (by omega)]
  · show calculator.precision ≤ p.toNat
    omega

/-! ### The range -/

section Range

variable {x y : Decimal}

theorem inRange_eq_ok :
    inRange (.finite x) = .ok y ↔ calculator.plus x = .ok y ∧ y.exceeds largest = false := by
  simp only [inRange]
  constructor
  · intro h
    split at h
    · next z hz =>
      split at h
      · cases h
      · next hexceeds =>
        cases h
        exact ⟨hz, Bool.eq_false_iff.mpr hexceeds⟩
    · cases h
  · rintro ⟨hround, hexceeds⟩
    simp only [hround, hexceeds, Bool.false_eq_true, if_false]

theorem contains_of_inRange (h : inRange (.finite x) = .ok y) : calculator.Contains y :=
  Context.contains_of_round (by decide) (inRange_eq_ok.mp h).1

theorem magnitude_le_of_inRange (h : inRange (.finite x) = .ok y) :
    y.magnitude ≤ largest.magnitude := by
  have hexceeds := (inRange_eq_ok.mp h).2
  rw [← Bool.not_eq_true, Decimal.exceeds_iff_lt] at hexceeds
  exact le_of_not_gt hexceeds

theorem finite_of_inRange {value : Extended} (h : inRange value = .ok y) :
    ∃ x, value = .finite x := by
  cases value with
  | finite x => exact ⟨x, rfl⟩
  | infinite negative => cases h
  | nan negative signaling payload => cases h

theorem settle_finite_eq_ok {r : Except Signal Decimal} :
    settle (.finite <$> r) = .ok y ↔ ∃ x, r = .ok x ∧ inRange (.finite x) = .ok y := by
  cases r with
  | error s => simp [settle]
  | ok x => simp [settle, mapError_eq_ok]

end Range

end PocketCalculator
