import PocketCalculator.Decimal.Sum

/-!
# Decimals with infinities and not-a-numbers

An operand may also be infinite or no number at all. A quiet NaN is passed on by every operation, a
signaling one makes it invalid. A NaN carries a payload, a number that says where it came from; zero
stands for none.
-/

namespace PocketCalculator

-- Powers are the core library's, also where other power instances are imported.
attribute [local instance (1200)] instPowNat

/-- A decimal, an infinity or not a number. -/
inductive Extended where
  | finite (x : Decimal)
  | infinite (negative : Bool)
  | nan (negative signaling : Bool) (payload : Nat)
  deriving DecidableEq

namespace Extended

def isSignaling : Extended → Bool
  | .nan _ signaling _ => signaling
  | _ => false

def isNegative : Extended → Bool
  | .finite x => x.negative
  | .infinite negative => negative
  | .nan negative _ _ => negative

/-- Whether the value is zero. Asking this of a signaling NaN is an invalid operation. -/
def isZero : Extended → Except Signal Bool
  | .finite x => .ok x.isZero
  | .infinite _ => .ok false
  | .nan _ signaling _ => if signaling then .error .invalidOperation else .ok false

/-- The power of ten of the first digit, and zero for what has none. -/
def adjusted : Extended → Int
  | .finite x => x.adjusted
  | _ => 0

def flip : Extended → Extended
  | .finite x => .finite x.flip
  | .infinite negative => .infinite (!negative)
  | .nan negative signaling payload => .nan (!negative) signaling payload

end Extended

namespace Context

/-! ### Operations on extended values -/

/-- A NaN as a result: of its payload the last digits are kept, as many as the precision. -/
def passNan (c : Context) (negative : Bool) (payload : Nat) : Extended :=
  .nan negative false (payload % 10 ^ c.precision)

/-- `-x`, rounded. A NaN keeps its sign. -/
def negate (c : Context) : Extended → Except Signal Extended
  | .finite x => .finite <$> c.minus x
  | .infinite negative => .ok (.infinite (!negative))
  | .nan negative signaling payload =>
    if signaling then .error .invalidOperation else .ok (c.passNan negative payload)

/-- What NaN operands decide: a signaling one is an invalid operation, else the first quiet one is
the result. Without one, `otherwise` gives the result. -/
def unlessNan (c : Context) (x y : Extended) (otherwise : Except Signal Extended) :
    Except Signal Extended :=
  if x.isSignaling || y.isSignaling then .error .invalidOperation
  else
    match x, y with
    | .nan negative _ payload, _ => .ok (c.passNan negative payload)
    | _, .nan negative _ payload => .ok (c.passNan negative payload)
    | _, _ => otherwise

def add (c : Context) (x y : Extended) : Except Signal Extended :=
  c.unlessNan x y <|
    match x, y with
    | .finite a, .finite b => .finite <$> c.sum a b
    | .infinite s, .infinite t =>
      if s = t then .ok (.infinite s) else .error .invalidOperation
    | .infinite s, _ => .ok (.infinite s)
    | _, y => .ok y

def sub (c : Context) (x y : Extended) : Except Signal Extended :=
  c.unlessNan x y (c.add x y.flip)

def mul (c : Context) (x y : Extended) : Except Signal Extended :=
  c.unlessNan x y <|
    match x, y with
    | .finite a, .finite b => .finite <$> c.round (a.mul b)
    | .finite a, .infinite t =>
      if a.isZero then .error .invalidOperation else .ok (.infinite (a.negative != t))
    | .infinite s, .finite b =>
      if b.isZero then .error .invalidOperation else .ok (.infinite (s != b.negative))
    | x, y => .ok (.infinite (x.isNegative != y.isNegative))

def div (c : Context) (x y : Extended) : Except Signal Extended :=
  c.unlessNan x y <|
    match x, y with
    | .finite a, .finite b => .finite <$> c.divide a b
    | .finite a, .infinite t => .ok (.finite ⟨a.negative != t, 0, c.finestExponent⟩)
    | .infinite s, .finite b => .ok (.infinite (s != b.negative))
    | _, _ => .error .invalidOperation

/-- The whole part of `x / y` has more digits than the precision. -/
def lacksQuotient (c : Context) (x y : Decimal) : Bool :=
  !(⟨y.negative, y.coefficient, y.exponent + c.precision⟩ : Decimal).exceeds x

/-- The remainder, rounded. It is an invalid operation if the quotient that it belongs to does not
fit into the precision. -/
def rem (c : Context) (x y : Extended) : Except Signal Extended :=
  c.unlessNan x y <|
    match x, y with
    | .finite a, .finite b =>
      if b.isZero || c.lacksQuotient a b then .error .invalidOperation
      else .finite <$> c.round (a.rem b)
    | .finite a, .infinite _ => .finite <$> c.round a
    | _, _ => .error .invalidOperation

end Context
end PocketCalculator
