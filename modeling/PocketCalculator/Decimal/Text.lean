import PocketCalculator.Decimal.Extended

/-!
# Writing decimals

Two forms. The *scientific* form keeps sign, coefficient and exponent apart from each other, so
that they can be read back; the *plain* form writes the value without an exponent.
-/

namespace PocketCalculator.Decimal

def digitText (n : Nat) : List Char := Nat.toDigits 10 n

/-- The digits with a point before the last `places` of them; with zeros in front if there are not
enough digits for one before the point. -/
def withPoint (digits : List Char) (places : Nat) : List Char :=
  if places = 0 then digits
  else if places < digits.length then
    digits.take (digits.length - places) ++ '.' :: digits.drop (digits.length - places)
  else '0' :: '.' :: List.replicate (places - digits.length) '0' ++ digits

/-- The text of an exponent, always with a sign. -/
def exponentText (e : Int) : List Char :=
  'E' :: (if e < 0 then '-' else '+') :: digitText e.natAbs

/-- A minus sign, if negative. -/
def signText (negative : Bool) : List Char := if negative then ['-'] else []

/-- The scientific form: no exponent is written while the decimal's exponent is at most zero and
its first digit is at most six places after the point. -/
def scientific (x : Decimal) : List Char :=
  let digits := digitText x.coefficient
  signText x.negative ++
    if x.exponent ≤ 0 ∧ -6 ≤ x.adjusted then withPoint digits (-x.exponent).toNat
    else withPoint digits (digits.length - 1) ++ exponentText x.adjusted

def plain (x : Decimal) : List Char :=
  let digits := digitText x.coefficient
  signText x.negative ++
    if x.isZero ∧ 0 ≤ x.exponent then ['0']
    else if 0 ≤ x.exponent then digits ++ List.replicate x.exponent.toNat '0'
    else withPoint digits (-x.exponent).toNat

end PocketCalculator.Decimal

namespace PocketCalculator.Extended

/-- The scientific form of an extended value; the payload of a NaN follows its name. -/
def scientific : Extended → List Char
  | .finite x => x.scientific
  | .infinite negative => Decimal.signText negative ++ "Infinity".toList
  | .nan negative signaling payload =>
    Decimal.signText negative ++ (if signaling then "sNaN" else "NaN").toList ++
      if payload = 0 then [] else Decimal.digitText payload

end PocketCalculator.Extended
