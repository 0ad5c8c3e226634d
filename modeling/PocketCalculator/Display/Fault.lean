import PocketCalculator.Decimal.Extended

/-!
# Values that cannot be shown
-/

namespace PocketCalculator.Display

/-- Why a value has no text: it is no decimal, or the arithmetic of showing it failed. -/
inductive Fault where
  | notFinite
  | signal (s : Signal)
  deriving DecidableEq

def lift {α : Type} (result : Except Signal α) : Except Fault α := result.mapError .signal

def requireFinite : Extended → Except Fault Decimal
  | .finite x => .ok x
  | _ => .error .notFinite

/-- The number of digits of a value: those of its coefficient or of its payload. -/
def digitsOf : Extended → Nat
  | .finite x => x.digits
  | .infinite _ => 1
  | .nan _ _ payload => Decimal.digitCount payload

/-- Shown values are rounded half away from zero, with room for all digits of `x` and for `places`
digits after the point. -/
def roomFor (x : Extended) (places : Int) : Except Signal Context :=
  Context.ofPrecision (max (max 1 (digitsOf x)) (x.adjusted + 1 + places)) .away

/-- The context in which quanta and signs are handled: 28 digits, ties to the even neighbour. -/
def ordinary : Context := ⟨28, .toEven⟩

end PocketCalculator.Display
