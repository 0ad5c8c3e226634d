import PocketCalculator.Decimal.Extended
import PocketCalculator.Text.Blank
import PocketCalculator.Text.Digits

/-!
# Reading decimals

A written decimal is read exactly, whatever its length. The digits may be those of any script.
-/

namespace PocketCalculator

/-- The sign in front of a text, and the rest: `true` for a minus. -/
def splitSign : List Char → Bool × List Char
  | '-' :: cs => (true, cs)
  | '+' :: cs => (false, cs)
  | cs => (false, cs)

/-- Digits with at most one point and at least one digit: the number without its point, and how
many digits follow the point. -/
def readFixed? (cs : List Char) : Option (Nat × Nat) :=
  let whole := cs.takeWhile isDecimalDigit
  match cs.dropWhile isDecimalDigit with
  | [] => if whole.isEmpty then none else some (digitsValue whole, 0)
  | c :: fraction =>
    if c = '.' && fraction.all isDecimalDigit && !(whole.isEmpty && fraction.isEmpty) then
      some (digitsValue (whole ++ fraction), fraction.length)
    else none

/-- An integer: a sign, if any, and at least one digit. -/
def readInt? (cs : List Char) : Option Int :=
  let (negative, digits) := splitSign cs
  if !digits.isEmpty && digits.all isDecimalDigit then
    some (if negative then -(digitsValue digits : Int) else digitsValue digits)
  else none

namespace Decimal

/-- A number without a sign: digits with at most one point, then perhaps an exponent. -/
def readUnsigned? (cs : List Char) : Option Decimal :=
  let isMark : Char → Bool := fun c => c = 'e' || c = 'E'
  match readFixed? (cs.takeWhile (!isMark ·)), cs.dropWhile (!isMark ·) with
  | some (coefficient, places), [] => some ⟨false, coefficient, -places⟩
  | some (coefficient, places), _ :: exponent =>
    (readInt? exponent).map fun e => ⟨false, coefficient, e - places⟩
  | none, _ => none

end Decimal

namespace Extended

def infinityNames : List (List Char) := ["inf".toList, "infinity".toList]

/-- The payload that follows the name of a NaN: decimal digits, of which there may be none. -/
def readPayload? (cs : List Char) : Option Nat :=
  if cs.all isDecimalDigit then some (digitsValue cs) else none

/-- The value that a name in small letters stands for, if it is no decimal. -/
def ofName? (name : List Char) (negative : Bool) : Option Extended :=
  if infinityNames.contains name then some (.infinite negative)
  else
    match name with
    | 'n' :: 'a' :: 'n' :: payload => (readPayload? payload).map (.nan negative false)
    | 's' :: 'n' :: 'a' :: 'n' :: payload => (readPayload? payload).map (.nan negative true)
    | _ => none

/-- The value that a text denotes, if it denotes one. Blanks around the text and underscores in
it do not count; names are read in any case. A number outside the range of exponents is none. -/
def ofText? (text : List Char) : Option Extended :=
  let (negative, body) := splitSign ((trim text).filter (· ≠ '_'))
  match ofName? (body.map Char.toLower) negative with
  | some x => some x
  | none =>
    ((Decimal.readUnsigned? body).filter Decimal.isStorable).map fun x =>
      .finite { x with negative := negative }

end Extended
end PocketCalculator
