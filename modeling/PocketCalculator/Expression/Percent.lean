import PocketCalculator.Expression.Token

/-!
# The two meanings of the percent sign

Between two operands `%` is the remainder operator; after an operand it means percent. It is the
operator when an opening parenthesis follows, or a number that has no percent sign of its own.
-/

namespace PocketCalculator

/-- The tokens start with an operand that a remainder can be taken by. -/
def startsDivisor : List Token → Bool
  | [] => false
  | [t] => t.kind = .opening || t.kind = .number
  | t :: after :: _ => t.kind = .opening || (t.kind = .number && after.kind ≠ .percent)

/-- The tokens, with remainder operators in place of the percent signs that are meant as such. -/
def resolvePercents : List Token → List Token
  | [] => []
  | t :: ts =>
    (if t.kind = .percent && startsDivisor ts then Token.modulus else t) :: resolvePercents ts

theorem length_resolvePercents (ts : List Token) : (resolvePercents ts).length = ts.length := by
  induction ts with
  | nil => rfl
  | cons t ts ih => simp only [resolvePercents, List.length_cons, ih]

end PocketCalculator
