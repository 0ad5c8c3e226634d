/-!
# Sets of characters

A set of characters is given by the ranges of its code points, both ends included.
-/

namespace PocketCalculator

/-- The code point of `c` lies in one of the ranges. -/
def inRanges (ranges : List (Nat × Nat)) (c : Char) : Bool :=
  ranges.any fun range => range.1 ≤ c.toNat && c.toNat ≤ range.2

end PocketCalculator
