import PocketCalculator.Display.Shown
import PocketCalculator.Expression.Evaluate
import PocketCalculator.Keypad.Key

/-!
# The keypad

A keypad shows one line: an expression that is being typed, the result of one, or an error. A
revision counts its changes, so that whoever has seen a state can tell whether it still stands.
-/

namespace PocketCalculator

/-- What the line is. A result and an error give way to the next character, and of an error nothing
is carried on. An error that is still being typed does not occur: whatever shows an error lets it
give way, and whatever stops letting it give way takes the error off as well. -/
inductive Phase where
  | typing
  | result
  | failure
  deriving DecidableEq

/-- The state of a keypad; the limits are those of the expressions that are typed and evaluated. -/
structure Keypad where
  line : List Char
  phase : Phase
  revision : Nat
  limits : Limits
  deriving DecidableEq

namespace Keypad

def blankLine : List Char := ['0']

def fresh (limits : Limits) : Keypad := ⟨blankLine, .typing, 0, limits⟩

/-- The keypad that a message shows. An error that was shown is gone. -/
def ofDisplay (limits : Limits) (text : List Char) : Keypad :=
  let line := trim text
  if line.isEmpty || errorLabel.toList.isPrefixOf line then fresh limits
  else ⟨line, .typing, 0, limits⟩

def display (s : Keypad) : List Char := if s.line.isEmpty then blankLine else s.line

/-- Nothing has been typed. -/
def isBlankLine (s : Keypad) : Bool := s.line.isEmpty || s.line = blankLine

/-- A change: the revision grows. -/
def changed (s : Keypad) : Keypad × Bool := ({ s with revision := s.revision + 1 }, true)

def unchanged (s : Keypad) : Keypad × Bool := (s, false)

/-! ### Typing -/

/-- The signs that continue a calculation with its result. -/
def isOperatorSign (c : Char) : Bool := c = '+' || c = '-' || c = '*' || c = '/'

/-- Starts typing, if a result or an error is shown: an operator goes on with the result, any other
character starts anew. -/
def startTyping (s : Keypad) (c : Char) : Keypad :=
  match s.phase with
  | .typing => s
  | .result => { s with phase := .typing, line := if isOperatorSign c then s.line else [] }
  | .failure => { s with phase := .typing, line := [] }

/-- The digits and points at the end of a line; one line end after them does not count. -/
def lastNumber (line : List Char) : List Char :=
  let reversed := line.reverse
  let reversed := if reversed.head? = some '\n' then reversed.tail else reversed
  (reversed.takeWhile fun c => isDecimalDigit c || c = '.').reverse

/-- Adds a character. A number has only one point, and a line at its limit does not grow. -/
def append (s : Keypad) (c : Char) : Keypad × Bool :=
  let s := s.startTyping c
  if s.isBlankLine && c ≠ '.' then changed { s with line := [c] }
  else if c = '.' && (lastNumber s.line).contains '.' then s.unchanged
  else if s.limits.length ≤ s.line.length then s.unchanged
  else changed { s with line := s.line ++ [c] }

/-- Takes everything back. -/
def clear (s : Keypad) : Keypad × Bool :=
  let cleared := { s with line := blankLine, phase := .typing }
  if s.line = blankLine && s.phase = .typing then cleared.unchanged else cleared.changed

/-- Takes the last character back, or an error as a whole. -/
def delete (s : Keypad) : Keypad × Bool :=
  if s.phase = .failure then s.clear
  else if s.line.length ≤ 1 then
    if s.line = blankLine then s.unchanged
    else changed { s with line := blankLine, phase := .typing }
  else changed { s with line := s.line.dropLast, phase := .typing }

def togglePercent (s : Keypad) : Keypad × Bool :=
  let s := if s.phase = .failure then s.clear.1 else s
  let line :=
    if s.isBlankLine then blankLine ++ ['%']
    else if s.line.getLast? = some '%' then s.line.dropLast
    else s.line ++ ['%']
  changed { s with line := line, phase := .typing }

/-! ### Calculating -/

def showFault (s : Keypad) (fault : Fault) : Keypad × Bool :=
  changed { s with line := fault.text.toList, phase := .failure }

def showOutcome (s : Keypad) (outcome : Except Fault (List Char)) : Keypad × Bool :=
  match outcome with
  | .ok text => changed { s with line := text, phase := .result }
  | .error fault => s.showFault fault

def equals (s : Keypad) : Keypad × Bool :=
  if s.line.isEmpty || s.phase = .failure then s.unchanged
  else
    s.showOutcome do
      let x ← evaluate s.limits s.line
      Display.shown x

def applyUnary (s : Keypad) (op : Unary) : Keypad × Bool :=
  if s.phase = .failure then s.unchanged
  else
    s.showOutcome do
      let x ← evaluate s.limits s.line
      let y ← op.apply (.finite x)
      Display.shown y

/-! ### Pressing keys -/

/-- Presses a key; the truth value says whether what is shown has changed. -/
def pressKey (s : Keypad) (key : Key) : Keypad × Bool :=
  match key.symbol? with
  | some c => s.append c
  | none =>
    match key with
    | .percent => s.togglePercent
    | .equals => s.equals
    | .clear => s.clear
    | .delete => s.delete
    | .unary op => s.applyUnary op
    | _ => s.unchanged

/-- Presses the key with a code; without such a key nothing happens. -/
def press (s : Keypad) (code : List Char) : Keypad × Bool :=
  match Key.ofCode? code with
  | some key => s.pressKey key
  | none => s.unchanged

def pressAll (s : Keypad) (codes : List (List Char)) : Keypad :=
  codes.foldl (fun s code => (s.press code).1) s

end Keypad
end PocketCalculator
