/-!
# Limits

How long an expression may be, and how deeply its parentheses and signs may be nested. The length is
a setting; how much nesting there is room for depends on the machine.
-/

namespace PocketCalculator

/-- The most characters of an expression, and its deepest nesting, where a parenthesis counts three
and a sign one. There is room for one sign at least. -/
structure Limits where
  length : Nat
  nesting : Nat
  nesting_pos : 0 < nesting
  deriving DecidableEq

/-- The longest expression, unless set otherwise. -/
def standardLimit : Nat := 1024

namespace Limits

def standard : Limits := ⟨standardLimit, 900, by decide⟩

/-- The standard limits, for expressions of up to this many characters. -/
def ofLength (length : Nat) : Limits := { standard with length := length }

end Limits
end PocketCalculator
