import PocketCalculator.Display.Amount
import PocketCalculator.Display.Number
import PocketCalculator.Expression.Fault

/-!
# Shown values

The texts in which the calculator shows its results. A value that has no text is out of range.
-/

namespace PocketCalculator.Display

def moneyPlaces : Int := 2

def shown (x : Decimal) : Except PocketCalculator.Fault (List Char) :=
  (number standardPlaces (.finite x)).mapError fun _ => .outOfRange

def shownMoney (x : Decimal) : Except PocketCalculator.Fault (List Char) :=
  (amount moneyPlaces standardSeparator (.finite x)).mapError fun _ => .outOfRange

end PocketCalculator.Display
