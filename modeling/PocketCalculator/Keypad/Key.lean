import PocketCalculator.Expression.Unary

/-!
# The keys of the keypad

Every key has a code, by which it is pressed, and a label. Keys that stand for a character add it
to the expression; the other ones act on what is shown.
-/

namespace PocketCalculator

inductive Key where
  | digit (d : Fin 10)
  | point
  | opening
  | closing
  | plus
  | minus
  | times
  | over
  | percent
  | equals
  | clear
  | delete
  | unary (op : Unary)
  deriving DecidableEq

namespace Key

def symbol? : Key → Option Char
  | .digit d => some (Char.ofNat ('0'.toNat + d.val))
  | .point => some '.'
  | .opening => some '('
  | .closing => some ')'
  | .plus => some '+'
  | .minus => some '-'
  | .times => some '*'
  | .over => some '/'
  | _ => none

def code (key : Key) : List Char :=
  match key.symbol? with
  | some c => [c]
  | none =>
    match key with
    | .percent => ['%']
    | .equals => ['=']
    | .clear => "C".toList
    | .delete => "DEL".toList
    | .unary .square => "SQ".toList
    | .unary .cube => "CUBE".toList
    | _ => "FACT".toList

def label (key : Key) : List Char :=
  match key with
  | .over => ['÷']
  | .times => ['×']
  | .minus => ['−']
  | .delete => ['⌫']
  | .unary .square => "x²".toList
  | .unary .cube => "x³".toList
  | .unary .factorial => "n!".toList
  | key => key.code

def layout : List (List Key) :=
  [[.clear, .delete, .percent, .over],
   [.digit 7, .digit 8, .digit 9, .times],
   [.digit 4, .digit 5, .digit 6, .minus],
   [.digit 1, .digit 2, .digit 3, .plus],
   [.opening, .digit 0, .point, .closing],
   [.unary .square, .unary .cube, .unary .factorial, .equals]]

def ofCode? (code : List Char) : Option Key := layout.flatten.find? (·.code = code)

theorem mem_layout (key : Key) : key ∈ layout.flatten := by
  cases key with
  | digit d =>
    revert d
    decide
  | unary op => cases op <;> decide
  | _ => decide

theorem ofCode?_code (key : Key) : ofCode? key.code = some key := by
  cases key with
  | digit d =>
    revert d
    decide
  | unary op => cases op <;> decide
  | _ => decide

/-! ### The data that a pressed key sends -/

def dataMark : List Char := ['k', 'p', ':']

def data (code : List Char) : List Char := dataMark ++ code

/-- The code in the data of a key, and nothing for other data. -/
def codeOfData (data : List Char) : List Char :=
  if dataMark.isPrefixOf data then data.drop dataMark.length else []

theorem codeOfData_data (code : List Char) : codeOfData (data code) = code := rfl

end Key
end PocketCalculator
