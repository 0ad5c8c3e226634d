import PocketCalculator.Binary64
import PocketCalculator.Expression.Limits
import PocketCalculator.Text.Blank
import PocketCalculator.Text.Quoted
import PocketCalculator.Text.Uppercase

/-!
# Settings

The bot is set up by five variables of its environment. A variable that is not set, or holds only
blanks, takes its standard value; only the token has none. The variables are read in a fixed order
and the first one that cannot be used is reported.
-/

namespace PocketCalculator

inductive Variable where
  | token
  | errorDelay
  | lengthLimit
  | sessions
  | logLevel
  deriving DecidableEq

def Variable.name : Variable → String
  | .token => "BOT_TOKEN"
  | .errorDelay => "CALC_ERROR_CLEAR_DELAY"
  | .lengthLimit => "CALC_MAX_LENGTH"
  | .sessions => "KEYPAD_SESSIONS_MAX"
  | .logLevel => "LOG_LEVEL"

abbrev Environment := Variable → Option (List Char)

/-- The value of a variable without blanks around it; nothing if it is not set. -/
def Environment.value (env : Environment) (v : Variable) : List Char := trim ((env v).getD [])

/-- How the bot is set up: its token, the seconds for which an error is shown, the longest
expression, the number of keypads whose states are kept, and the level of its log. -/
structure Settings where
  token : List Char
  errorDelay : Binary64
  limit : Nat
  sessions : Nat
  logLevel : List Char
  deriving DecidableEq

namespace Settings

/-- Why the variables cannot be used. -/
inductive Problem where
  | noToken
  | notANumber (v : Variable) (value : List Char)
  | notAnInteger (v : Variable) (value : List Char)
  | negative (v : Variable)
  | notPositive (v : Variable)
  deriving DecidableEq

def Problem.message : Problem → String
  | .noToken => Variable.token.name ++ " is not set"
  | .notANumber v value => v.name ++ " must be a number, got " ++ String.ofList (quoted value)
  | .notAnInteger v value => v.name ++ " must be an integer, got " ++ String.ofList (quoted value)
  | .negative v => v.name ++ " must not be negative"
  | .notPositive v => v.name ++ " must be positive"

/-- An error is shown for one and a half seconds, unless set otherwise. -/
def standardDelay : Binary64 := .ofDecimal ⟨false, 15, -1⟩

/-- A thousand states are kept, unless set otherwise. -/
def standardSessions : Nat := 1000

/-- Integers of more digits are not read. -/
def maxIntDigits : Nat := 4300

/-- An integer: a sign, if any, and digits, perhaps with underscores between them. -/
def integer? (text : List Char) : Option Int := do
  let (negative, body) := splitSign text
  let digits ← Binary64.joinDigits? false body
  if digits.isEmpty || !digits.all isDecimalDigit || maxIntDigits < digits.length then none
  else some (if negative then -(digitsValue digits : Int) else digitsValue digits)

def readDelay (env : Environment) (v : Variable) (standard : Binary64) :
    Except Problem Binary64 :=
  let value := env.value v
  if value.isEmpty then .ok standard
  else
    match Binary64.ofText? value with
    | none => .error (.notANumber v value)
    | some x => if x.isNegative then .error (.negative v) else .ok x

def readCount (env : Environment) (v : Variable) (standard : Nat) : Except Problem Nat :=
  let value := env.value v
  if value.isEmpty then .ok standard
  else
    match integer? value with
    | none => .error (.notAnInteger v value)
    | some n => if n ≤ 0 then .error (.notPositive v) else .ok n.toNat

def ofEnvironment (env : Environment) : Except Problem Settings := do
  let token := env.value .token
  if token.isEmpty then .error .noToken
  else
    let errorDelay ← readDelay env .errorDelay standardDelay
    let limit ← readCount env .lengthLimit standardLimit
    let sessions ← readCount env .sessions standardSessions
    let level := env.value .logLevel
    .ok ⟨token, errorDelay, limit, sessions,
      toCapitals (if level.isEmpty then "INFO".toList else level)⟩

/-! ### Log levels -/

/-- The number of a level; unknown ones count as information. -/
def logNumber (level : List Char) : Nat :=
  match String.ofList level with
  | "CRITICAL" => 50
  | "FATAL" => 50
  | "ERROR" => 40
  | "WARNING" => 30
  | "WARN" => 30
  | "DEBUG" => 10
  | "NOTSET" => 0
  | _ => 20

end Settings
end PocketCalculator
