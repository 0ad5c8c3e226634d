import PocketCalculator.Decimal.Reader
import PocketCalculator.Decimal.Text

/-!
# Double-precision numbers

A double-precision number is `±m · 2^e` with a mantissa of at most 53 bits, an infinity or not a
number. A decimal is read as the nearest one, and one is written with the fewest digits that read
back as the same number.
-/

namespace PocketCalculator

-- Powers are the core library's, also where other power instances are imported.
attribute [local instance (1200)] instPowNat

/-- A double-precision number; a finite one is `±mantissa · 2^exponent`. -/
inductive Binary64 where
  | finite (negative : Bool) (mantissa : Nat) (exponent : Int)
  | infinite (negative : Bool)
  | nan
  deriving DecidableEq

namespace Binary64

/-- The exponent of the smallest step. -/
def minExponent : Int := -1074

/-- The exponent of the largest numbers. -/
def maxExponent : Int := 971

/-- The power `b^e` for a positive exponent, and one for a negative one. -/
def up (b : Nat) (e : Int) : Nat := b ^ e.toNat

/-- The power `b^(-e)` for a negative exponent, and one for a positive one. -/
def down (b : Nat) (e : Int) : Nat := b ^ (-e).toNat

/-! ### Reading -/

/-- The exponent at which `n / d` has a mantissa of 53 bits, or the smallest one. -/
def exponentFor (n d : Nat) : Int :=
  let guess : Int := (n.log2 : Int) - d.log2 - 53
  let wide := n * down 2 guess / (d * up 2 guess)
  max minExponent (if 2 ^ (53 : Nat) ≤ wide then guess + 1 else guess)

/-- The number nearest to `n / d`, of two the one with an even mantissa. -/
def ofRatio (negative : Bool) (n d : Nat) : Binary64 :=
  let e := exponentFor n d
  let m := nearest .toEven (n * down 2 e) (d * up 2 e)
  let (m, e) := if m = 2 ^ (53 : Nat) then (2 ^ (52 : Nat), e + 1) else (m, e)
  if maxExponent < e then .infinite negative else .finite negative m e

def ofDecimal (x : Decimal) : Binary64 :=
  if x.isZero || x.adjusted < -400 then .finite x.negative 0 minExponent
  else if 400 < x.adjusted then .infinite x.negative
  else ofRatio x.negative (x.coefficient * up 10 x.exponent) (down 10 x.exponent)

def ofName? (name : List Char) (negative : Bool) : Option Binary64 :=
  if Extended.infinityNames.contains name then some (.infinite negative)
  else if name = "nan".toList then some .nan
  else none

/-- Underscores divide digits: the text without them, if each one has a digit on both sides.
`after` says whether the character before the text is a digit. -/
def joinDigits? (after : Bool) : List Char → Option (List Char)
  | [] => some []
  | '_' :: c :: cs =>
    if after && isDecimalDigit c then (joinDigits? true cs).map (c :: ·) else none
  | c :: cs => if c = '_' then none else (joinDigits? (isDecimalDigit c) cs).map (c :: ·)

/-- The number nearest to what a text denotes. -/
def ofText? (text : List Char) : Option Binary64 := do
  let (negative, body) := splitSign (trim text)
  let body ← joinDigits? false body
  match ofName? (body.map Char.toLower) negative with
  | some x => some x
  | none => do
    let x ← Decimal.readUnsigned? body
    some (ofDecimal { x with negative := negative })

/-- The number is below zero; a negative zero is not. -/
def isNegative : Binary64 → Bool
  | .finite negative mantissa _ => negative && 0 < mantissa
  | .infinite negative => negative
  | .nan => false

/-! ### Writing -/

/-- The power of ten of the first digit of `n / d`, for positive `n`. -/
def adjustedRatio (n d : Nat) : Int :=
  if d ≤ n then (Decimal.digitCount (n / d) : Int) - 1
  else -(Decimal.digitCount ((d - 1) / n) : Int)

/-- The decimal of the grid `10^g` that reads back as `m · 2^e`, if there is one; of two the nearer
one. Everything is compared in quarters of `2^e`, where the ends of the interval of what is read as
this number are whole. -/
def onGrid? (m : Nat) (e g : Int) : Option (Nat × Int) :=
  let unit := 4 * down 2 e * up 10 g
  let scale := up 2 e * down 10 g
  let value := 4 * m * scale
  let low := (if m = 2 ^ (52 : Nat) ∧ minExponent < e then 4 * m - 1 else 4 * m - 2) * scale
  let high := (4 * m + 2) * scale
  let inside (c : Nat) : Bool :=
    if m % 2 = 0 then low ≤ c * unit && c * unit ≤ high else low < c * unit && c * unit < high
  let c := value / unit
  match inside c, inside (c + 1) with
  | true, true => some (nearest .toEven value unit, g)
  | true, false => some (c, g)
  | false, true => some (c + 1, g)
  | false, false => none

/-- The shortest decimal that reads back as `m · 2^e`, without trailing zeros. -/
def shortest (negative : Bool) (m : Nat) (e : Int) : Decimal :=
  let top := adjustedRatio (m * up 2 e) (down 2 e)
  let found := (List.range 17).findSome? fun (n : Nat) => onGrid? m e (top - n)
  let (c, g) := found.getD (0, 0)
  Context.stripZeros (g + 17) ⟨negative, c, g⟩

/-- The text of an exponent: a sign and at least two digits. -/
def exponentText (e : Int) : List Char :=
  let digits := Decimal.digitText e.natAbs
  'e' :: (if e < 0 then '-' else '+') :: List.replicate (2 - digits.length) '0' ++ digits

/-- A decimal in positional form, with at least one digit after the point, if its first digit is
at most four places after the point and less than sixteen before; else with an exponent. -/
def decimalText (x : Decimal) : List Char :=
  let digits := Decimal.digitText x.coefficient
  Decimal.signText x.negative ++
    if x.adjusted < -4 ∨ 16 ≤ x.adjusted then
      Decimal.withPoint digits (digits.length - 1) ++ exponentText x.adjusted
    else if 0 ≤ x.exponent then
      digits ++ List.replicate x.exponent.toNat '0' ++ ['.', '0']
    else Decimal.withPoint digits (-x.exponent).toNat

def text : Binary64 → List Char
  | .finite negative mantissa exponent =>
    if mantissa = 0 then Decimal.signText negative ++ "0.0".toList
    else decimalText (shortest negative mantissa exponent)
  | .infinite negative => Decimal.signText negative ++ "inf".toList
  | .nan => "nan".toList

end Binary64
end PocketCalculator
