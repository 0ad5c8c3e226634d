import PocketCalculator.Decimal.Extended
import PocketCalculator.Expression.Fault

/-!
# Operations of the calculator

The calculator works with 28 digits and with magnitudes up to that of the largest double-precision
number. Every result is brought to that precision and checked against that bound.
-/

namespace PocketCalculator

-- Powers are the core library's, also where other power instances are imported.
attribute [local instance (1200)] instPowNat

/-- Calculations keep 28 digits, and a half goes to the even neighbour. -/
def calculator : Context := ⟨28, .toEven⟩

/-- The largest magnitude: the whole number that is the largest double-precision number. -/
def largest : Decimal := .ofNat ((2 ^ (53 : Nat) - 1) * 2 ^ (971 : Nat))

inductive Operator where
  | add
  | sub
  | mul
  | div
  | rem
  deriving DecidableEq

def Operator.ofText? (text : List Char) : Option Operator :=
  match text with
  | ['+'] => some .add
  | ['-'] => some .sub
  | ['*'] => some .mul
  | ['/'] => some .div
  | ['%'] => some .rem
  | _ => none

/-- Why a calculation gave no value: a fault of the expression, or a signal of the arithmetic. -/
inductive Failure where
  | fault (f : Fault)
  | signal (s : Signal)
  deriving DecidableEq

/-- As a fault of the expression; every signal means that the range was left. -/
def Failure.toFault : Failure → Fault
  | .fault f => f
  | .signal _ => .outOfRange

/-- The value rounded to the calculator's precision, if it is a decimal within the bound. -/
def inRange : Extended → Except Fault Decimal
  | .finite x =>
    match calculator.plus x with
    | .ok y => if y.exceeds largest then .error .outOfRange else .ok y
    | .error _ => .error .outOfRange
  | _ => .error .outOfRange

/-- The result of an operation, brought into range. -/
def settle (result : Except Signal Extended) : Except Failure Decimal :=
  match result with
  | .ok x => (inRange x).mapError .fault
  | .error s => .error (.signal s)

/-- The context of a remainder: it has room for all digits of the whole quotient. -/
def remainderContext (a b : Extended) : Except Signal Context :=
  Context.ofPrecision (max calculator.precision (a.adjusted - b.adjusted + 30)) calculator.ties

/-- Refuses to divide by zero. -/
def requireNonzero (b : Extended) (fault : Fault) : Except Failure Unit :=
  match b.isZero with
  | .ok true => .error (.fault fault)
  | .ok false => .ok ()
  | .error s => .error (.signal s)

def Operator.apply : Operator → Extended → Extended → Except Failure Decimal
  | .add, a, b => settle (calculator.add a b)
  | .sub, a, b => settle (calculator.sub a b)
  | .mul, a, b => settle (calculator.mul a b)
  | .div, a, b => do
    requireNonzero b .divideByZero
    settle (calculator.div a b)
  | .rem, a, b => do
    requireNonzero b .moduloByZero
    settle (do (← remainderContext a b).rem a b)

/-- The operation that a sign stands for; no other text is an operation. -/
def applyText (sign : List Char) (a b : Extended) : Except Failure Decimal :=
  match Operator.ofText? sign with
  | some op => op.apply a b
  | none => .error (.fault (.unexpected sign))

/-- `x` with the other sign, rounded. -/
def negated (x : Extended) : Except Failure Extended :=
  (calculator.negate x).mapError .signal

def hundred : Extended := .finite (.ofNat 100)

/-- A percent sign after `x`: a hundredth of `x`. -/
def percent (x : Extended) : Except Failure Decimal :=
  settle (calculator.div x hundred)

/-- `x` percent of `whole`. -/
def percentOf (whole x : Extended) : Except Failure Decimal :=
  settle (do calculator.div (← calculator.mul whole x) hundred)

end PocketCalculator
