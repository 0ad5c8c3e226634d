import PocketCalculator.Expression.Evaluator
import PocketCalculator.Expression.Limits
import PocketCalculator.Expression.Parentheses
import PocketCalculator.Expression.Percent

/-!
# Evaluating an expression

The whole way from a text to its value: tokens, parentheses, percent signs, computation, range.
-/

namespace PocketCalculator

/-- The value of an expression within the limits. -/
def evaluate (limits : Limits) (expression : List Char) : Except Fault Decimal := do
  let tokens ← tokenize limits.length expression
  checkParentheses tokens
  let value ← (compute limits.nesting (resolvePercents tokens)).mapError Failure.toFault
  inRange value

end PocketCalculator
