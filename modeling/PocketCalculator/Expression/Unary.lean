import PocketCalculator.Expression.Operation

/-!
# Squares, cubes and factorials
-/

namespace PocketCalculator

inductive Unary where
  | square
  | cube
  | factorial
  deriving DecidableEq

/-- `x` multiplied `n` times to one, rounded at every step. -/
def product (x : Decimal) : Nat → Except Signal Decimal
  | 0 => .ok (.ofNat 1)
  | n + 1 => do calculator.round ((← product x n).mul x)

/-- The power `x^n`, brought into range. -/
def power (n : Nat) (x : Extended) : Except Fault Decimal :=
  match x with
  | .finite a =>
    match product a n with
    | .ok y => inRange (.finite y)
    | .error _ => .error .outOfRange
  | _ => .error .outOfRange

/-- `n!`, the product of the numbers from one to `n`. -/
def factorialNat : Nat → Nat
  | 0 => 1
  | n + 1 => (n + 1) * factorialNat n

/-- The largest number whose factorial is within the calculator's bound. -/
def maxFactorial : Nat := 170

/-- The factorial of a whole number from zero to `maxFactorial`. -/
def factorial (x : Extended) : Except Fault Decimal :=
  match x with
  | .finite a =>
    if !a.isWhole then .error .notWhole
    else if a.negative && !a.isZero then .error .negative
    else if a.exceeds (.ofNat maxFactorial) then .error .tooLarge
    else inRange (.finite (.ofNat (factorialNat a.wholePart)))
  | _ => .error .outOfRange

def Unary.apply : Unary → Extended → Except Fault Decimal
  | .square => power 2
  | .cube => power 3
  | .factorial => PocketCalculator.factorial

end PocketCalculator
