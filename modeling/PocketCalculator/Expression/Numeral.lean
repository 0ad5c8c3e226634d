import PocketCalculator.Decimal.Reader
import PocketCalculator.Expression.Operation
import PocketCalculator.Expression.Token

/-!
# Single numbers

A numeral is a number alone: a sign, if any, and digits with at most one point.
-/

namespace PocketCalculator

/-- The decimal that a numeral denotes, exactly; the text may have blanks around it. -/
def readNumeral (text : List Char) : Except Fault Decimal :=
  let (negative, digits) := splitSign (normalizeText text)
  match readFixed? digits with
  | some (coefficient, places) => .ok ⟨negative, coefficient, -places⟩
  | none => .error .notANumber

/-- The value of a numeral. To write a decimal that cannot be held is an invalid operation. -/
def numeralValue (text : List Char) : Except Failure Decimal := do
  let d ← (readNumeral text).mapError .fault
  if d.isStorable then .ok d else .error (.signal .invalidOperation)

end PocketCalculator
