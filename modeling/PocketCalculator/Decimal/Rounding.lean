import PocketCalculator.Decimal.Basic
import PocketCalculator.Decimal.Nearest

/-!
# Rounding to a precision

A context says how many digits a result may have and where ties go. Every operation computes its
exact result and rounds it once. A result too large for the exponent range, or one that does not
exist, is a signal.
-/

namespace PocketCalculator

-- Powers are the core library's, also where other power instances are imported.
attribute [local instance (1200)] instPowNat

/-- Why an operation has no result. The last two are refusals of a precision: it is larger than
any context can have, or it does not even fit into a word. -/
inductive Signal where
  | invalidOperation
  | divisionByZero
  | overflow
  | precisionTooLarge
  | precisionTooWide
  deriving DecidableEq

/-- The number of digits that results keep and the neighbour that ties go to. -/
structure Context where
  precision : Nat
  ties : Ties
  deriving DecidableEq

namespace Context

def maxPrecision : Int := 999999999999999999

/-- The context with the precision asked for, if there is one. -/
def ofPrecision (precision : Int) (ties : Ties) : Except Signal Context :=
  if 2 ^ (63 : Nat) ≤ precision then .error .precisionTooWide
  else if maxPrecision < precision then .error .precisionTooLarge
  else .ok ⟨precision.toNat, ties⟩

/-! ### The exponent range -/

/-- The largest power of ten of a first digit. -/
def maxExponent : Int := 999999

/-- The smallest power of ten of the first digit of a number that has full precision. -/
def minExponent : Int := -999999

/-- The exponent of the smallest step: below it digits are rounded away. -/
def finestExponent (c : Context) : Int := minExponent - (c.precision - 1)

end Context

/-! ### Rounding at a given exponent -/

namespace Decimal

/-- The decimal nearest to `x` among the multiples of `10^e`, written with exponent `e`. If all
digits are far below `10^e`, that is zero. -/
def toExponent (ties : Ties) (x : Decimal) (e : Int) : Decimal :=
  if e ≤ x.exponent then ⟨x.negative, x.coefficientAt e, e⟩
  else if x.adjusted + 1 < e then ⟨x.negative, 0, e⟩
  else ⟨x.negative, nearest ties x.coefficient (10 ^ (e - x.exponent).toNat), e⟩

theorem toExponent_exponent (ties : Ties) (x : Decimal) (e : Int) :
    (x.toExponent ties e).exponent = e := by
  simp only [toExponent]
  split
  · rfl
  · split <;> rfl

theorem toExponent_of_lt (ties : Ties) {x : Decimal} {e : Int} (h : x.exponent < e) :
    x.toExponent ties e =
      ⟨x.negative, nearest ties x.coefficient (10 ^ (e - x.exponent).toNat), e⟩ := by
  simp only [toExponent, Int.not_le.mpr h, if_false]
  split
  · next hfar =>
    simp only [adjusted] at hfar
    have hle : x.digits + 1 ≤ (e - x.exponent).toNat := by omega
    have hpow := Nat.pow_le_pow_right (show 0 < 10 by decide) hle
    have hlt := x.coefficient_lt
    rw [Nat.pow_succ] at hpow
    rw [nearest_eq_zero ties (by omega)]
  · rfl

theorem toExponent_self (ties : Ties) (x : Decimal) : x.toExponent ties x.exponent = x := by
  simp [toExponent, coefficientAt_self]

/-- A coefficient that rounding has carried over to `precision + 1` digits is a power of ten; it
loses its last zero. -/
def uncarry (precision : Nat) (x : Decimal) : Decimal :=
  if precision < x.digits then ⟨x.negative, x.coefficient / 10, x.exponent + 1⟩ else x

end Decimal

namespace Context

/-! ### Rounding to the precision -/

/-- The exponent at which `x` is rounded: its own, unless it has more digits than the precision
or digits below the smallest step. -/
def targetExponent (c : Context) (x : Decimal) : Int :=
  max (max x.exponent (x.adjusted - c.precision + 1)) c.finestExponent

/-- `x` rounded to the precision. Of zero only the exponent is brought into the range. -/
def round (c : Context) (x : Decimal) : Except Signal Decimal :=
  if x.isZero then
    .ok { x with exponent := max c.finestExponent (min x.exponent maxExponent) }
  else
    let y := (x.toExponent c.ties (c.targetExponent x)).uncarry c.precision
    if !y.isZero && maxExponent < y.adjusted then .error .overflow else .ok y

/-- `x` rounded, where a zero loses its sign. -/
def plus (c : Context) (x : Decimal) : Except Signal Decimal :=
  c.round (if x.isZero then x.abs else x)

/-- `x` with the other sign, rounded; a zero is positive. -/
def minus (c : Context) (x : Decimal) : Except Signal Decimal :=
  c.round (if x.isZero then x.abs else x.flip)

/-- The power `10^e`, rounded. An exponent far beyond the range is an invalid operation. -/
def powerOfTen (c : Context) (e : Int) : Except Signal Decimal :=
  if 2 * (maxExponent + c.precision) < e.natAbs then .error .invalidOperation
  else c.round ⟨false, 1, e⟩

/-- The digits of `x` down to the power `10^e` are more than the precision, or they begin above
the exponent range. -/
def lacksRoom (c : Context) (x : Decimal) (e : Int) : Bool :=
  !x.isZero && (maxExponent < x.adjusted || (c.precision : Int) < x.adjusted - e + 1)

/-- `x` with exponent `e`, rounded there. This is an invalid operation if `e` is out of range or
the result would need more digits than the precision, be it by a carry of the rounding. -/
def quantize (c : Context) (x : Decimal) (e : Int) : Except Signal Decimal :=
  if e < c.finestExponent || maxExponent < e || c.lacksRoom x e then .error .invalidOperation
  else
    let y := x.toExponent c.ties e
    if y.isZero then .ok y
    else if c.precision < y.digits || maxExponent < y.adjusted then .error .invalidOperation
    else .ok y

/-! ### Trailing zeros -/

/-- The decimal without the trailing zeros of its coefficient, for exponents up to `limit`. -/
def stripZeros (limit : Int) (x : Decimal) : Decimal :=
  if h : 0 < x.coefficient ∧ x.coefficient % 10 = 0 ∧ x.exponent < limit then
    stripZeros limit ⟨x.negative, x.coefficient / 10, x.exponent + 1⟩
  else x
termination_by x.coefficient
decreasing_by exact Nat.div_lt_self h.1 (by decide)

/-- `x` rounded and written without trailing zeros; zero gets exponent zero. -/
def reduce (c : Context) (x : Decimal) : Except Signal Decimal := do
  let y ← c.round x
  .ok (if y.isZero then { y with exponent := 0 } else stripZeros maxExponent y)

/-! ### Division -/

/-- The quotient of two non-zero decimals, cut to more digits than the precision. If something is
left over, one more digit `1` stands for it, so that rounding sees the side on which the exact
quotient lies. An exact quotient is brought as close as possible to the difference of the
exponents by dropping zeros. -/
def cutQuotient (c : Context) (x y : Decimal) : Decimal :=
  let shift : Int := y.digits - x.digits + c.precision + 1
  let n := x.coefficient * 10 ^ shift.toNat
  let d := y.coefficient * 10 ^ (-shift).toNat
  let sign := x.negative != y.negative
  let ideal := x.exponent - y.exponent
  if n % d = 0 then stripZeros ideal ⟨sign, n / d, ideal - shift⟩
  else ⟨sign, n / d * 10 + 1, ideal - shift - 1⟩

def divide (c : Context) (x y : Decimal) : Except Signal Decimal :=
  if y.isZero then .error (if x.isZero then .invalidOperation else .divisionByZero)
  else if x.isZero then c.round ⟨x.negative != y.negative, 0, x.exponent - y.exponent⟩
  else c.round (c.cutQuotient x y)

end Context
end PocketCalculator
