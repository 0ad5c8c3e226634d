import PocketCalculator.Decimal.Text
import PocketCalculator.Display.Fault

/-!
# The text of a number

The calculator shows a number without exponent, with at most a given number of digits after the
point, without trailing zeros there, and never as a negative zero.
-/

namespace PocketCalculator.Display

/-- How many digits after the point the display has room for. -/
def standardPlaces : Int := 8

/-- `x` with at most `places` digits after the point. -/
def atPlaces (x : Decimal) (places : Int) : Except Signal Decimal :=
  if x.exponent < -places then do
    let quantum ← ordinary.powerOfTen (-places)
    let room ← roomFor (.finite x) places
    room.quantize x quantum.exponent
  else .ok x

def dropZeros (cs : List Char) : List Char := (cs.reverse.dropWhile (· = '0')).reverse

def dropPoint (cs : List Char) : List Char := (cs.reverse.dropWhile (· = '.')).reverse

/-- The text without needless zeros after the point. -/
def tidy (cs : List Char) : List Char := if cs.contains '.' then dropPoint (dropZeros cs) else cs

def number (places : Int) (value : Extended) : Except Fault (List Char) := do
  let x ← requireFinite value
  let y ← lift (atPlaces x places)
  let room ← lift (roomFor (.finite y) 0)
  let z ← lift (room.reduce y)
  let cs := tidy z.plain
  .ok (if cs = [] ∨ cs = ['-', '0'] then ['0'] else cs)

end PocketCalculator.Display
