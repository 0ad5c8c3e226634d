/-!
# Faults

What can be wrong with an expression or with a value. Faults belong to families; a family has a
text of its own, used where nothing more is known.
-/

namespace PocketCalculator

inductive Family where
  | general
  | number
  | parentheses
  | division
  | modulus
  | range
  | domain
  deriving DecidableEq

def Family.text : Family → String
  | .general => "Invalid Input"
  | .number => "Invalid Input"
  | .parentheses => "Unbalanced parentheses"
  | .division => "Cannot divide by zero"
  | .modulus => "Cannot mod by zero"
  | .range => "Math Error"
  | .domain => "Value out of range"

/-- A message as given, or the text of the family if there is none or an empty one. -/
def Family.message (family : Family) : Option String → String
  | none => family.text
  | some given => if given.isEmpty then family.text else given

inductive Fault where
  | notANumber
  | emptyExpression
  | tooLong
  | tooComplex
  | invalidNumber
  | invalidCharacter (c : Char)
  | expectedNumber
  | emptyParentheses
  | unexpected (text : List Char)
  | unbalanced
  | divideByZero
  | moduloByZero
  | outOfRange
  | notWhole
  | negative
  | tooLarge
  deriving DecidableEq

namespace Fault

def family : Fault → Family
  | .unbalanced => .parentheses
  | .divideByZero => .division
  | .moduloByZero => .modulus
  | .outOfRange => .range
  | .notWhole => .domain
  | .negative => .domain
  | .tooLarge => .domain
  | _ => .number

def message : Fault → String
  | .emptyExpression => "Empty expression"
  | .tooLong => "Expression too long"
  | .tooComplex => "Expression too complex"
  | .invalidNumber => "Invalid number"
  | .invalidCharacter c => "Invalid character: " ++ c.toString
  | .expectedNumber => "Expected number"
  | .emptyParentheses => "Empty parentheses"
  | .unexpected text => "Unexpected '" ++ String.ofList text ++ "'"
  | .notWhole => "Whole numbers only"
  | .negative => "Negative numbers not allowed"
  | .tooLarge => "Value too large"
  | fault => fault.family.text

end Fault

def errorLabel : String := "Error: "

def errorText (message : String) : String := errorLabel ++ message

def Fault.text (fault : Fault) : String := errorText fault.message

end PocketCalculator
