import PocketCalculator.Decimal.Text
import PocketCalculator.Display.Fault

/-!
# The text of an amount of money

An amount has a fixed number of digits after the point, and its whole part is written in groups of
three digits.
-/

namespace PocketCalculator.Display

-- Powers are the core library's, also where other power instances are imported.
attribute [local instance (1200)] instPowNat

/-- The sign between groups of digits, unless another one is asked for. -/
def standardSeparator : List Char := ['’']

/-! ### Groups of digits -/

/-- The text cut into pieces of three characters, from the left; the last one may be shorter. -/
def threes : List Char → List (List Char)
  | [] => []
  | a :: b :: c :: d :: cs => [a, b, c] :: threes (d :: cs)
  | cs => [cs]

/-- The text in groups of three characters, counted from the right. -/
def groups (cs : List Char) : List (List Char) := ((threes cs.reverse).map List.reverse).reverse

/-- The text in groups of three characters with separators between them. -/
def grouped (separator cs : List Char) : List Char := separator.intercalate (groups cs)

theorem flatten_threes (cs : List Char) : (threes cs).flatten = cs := by
  fun_induction threes cs with
  | case1 => rfl
  | case2 a b c d cs ih => simp only [List.flatten_cons, ih, List.cons_append, List.nil_append]
  | case3 cs h1 h2 => simp only [List.flatten_cons, List.flatten_nil, List.append_nil]

/-- Grouping loses nothing and keeps the order. -/
theorem flatten_groups (cs : List Char) : (groups cs).flatten = cs := by
  rw [groups, ← List.reverse_flatten, flatten_threes, List.reverse_reverse]

/-! ### Amounts -/

/-- The exponent at which an amount is rounded: that of the smallest unit for a positive number of
places. Without places it is zero, unless the unit has more digits than a decimal keeps. -/
def unitExponent (places : Int) : Except Signal Int :=
  if 0 < places then do .ok (← ordinary.round ⟨false, 1, -places⟩).exponent
  else if Context.maxExponent < -places then .error .overflow
  else do .ok (← ordinary.round ⟨false, 10 ^ (-places).toNat, 0⟩).exponent

/-- The digits after the point, brought to the number of places. -/
def padded (places : Int) (cs : List Char) : List Char :=
  (cs ++ List.replicate (places.toNat - cs.length) '0').take places.toNat

/-- The text of an unsigned amount, given in plain digits. -/
def laidOut (places : Int) (separator cs : List Char) : List Char :=
  match cs.dropWhile (· ≠ '.') with
  | [] =>
    grouped separator cs ++
      if 0 < places then '.' :: List.replicate places.toNat '0' else []
  | _ :: fraction =>
    grouped separator (cs.takeWhile (· ≠ '.')) ++ '.' :: padded places fraction

def amount (places : Int) (separator : List Char) (value : Extended) :
    Except Fault (List Char) := do
  let e ← lift (unitExponent places)
  let room ← lift (roomFor value places)
  let x ← requireFinite value
  let y ← lift (room.quantize x e)
  if y.negative && !y.isZero then
    let z ← lift (ordinary.minus y)
    .ok ('-' :: laidOut places separator z.plain)
  else .ok (laidOut places separator y.plain)

end PocketCalculator.Display
