import PocketCalculator.Expression.Fault
import PocketCalculator.Text.Blank
import PocketCalculator.Text.Digits

/-!
# Tokens

An expression is cut into numbers, operators, percent signs and parentheses. Blanks between tokens
do not count. A number is a longest run of digits and points; the word `mod`, in any case, is the
remainder operator.
-/

namespace PocketCalculator

inductive TokenKind where
  | number
  | operator
  | percent
  | opening
  | closing
  deriving DecidableEq

/-- A token: its kind, and the characters that it is shown with. -/
structure Token where
  kind : TokenKind
  text : List Char
  deriving DecidableEq

namespace Token

def number (text : List Char) : Token := ⟨.number, text⟩
def operator (c : Char) : Token := ⟨.operator, [c]⟩
def percent : Token := ⟨.percent, ['%']⟩
def opening : Token := ⟨.opening, ['(']⟩
def closing : Token := ⟨.closing, [')']⟩

/-- The remainder operator. -/
def modulus : Token := operator '%'

end Token

/-! ### Characters -/

/-- Typographic signs are read as the plain ones. -/
def plainSign (c : Char) : Char :=
  match c with
  | ',' => '.'
  | '×' => '*'
  | '÷' => '/'
  | '−' => '-'
  | c => c

/-- The text without blanks around it, in plain signs. -/
def normalizeText (cs : List Char) : List Char := (trim cs).map plainSign

def isNumberChar (c : Char) : Bool := isDigitChar c || c = '.'

/-- The text starts with `mod`, in any case. -/
def startsWithMod (cs : List Char) : Bool := (cs.take 3).map Char.toLower == ['m', 'o', 'd']

/-! ### The first token -/

/-- The number at the start of the text, and the rest. A number has at most one point and is not a
point alone. -/
def takeNumber (cs : List Char) : Except Fault (Token × List Char) :=
  let run := cs.takeWhile isNumberChar
  if 1 < run.count '.' || run = ['.'] then .error .invalidNumber
  else .ok (.number run, cs.dropWhile isNumberChar)

/-- The token that starts with the non-blank character `c`, and what follows it. -/
def takeToken (c : Char) (rest : List Char) : Except Fault (Token × List Char) :=
  if c = '+' || c = '-' || c = '*' || c = '/' then .ok (.operator c, rest)
  else if c = '%' then .ok (.percent, rest)
  else if c = '(' then .ok (.opening, rest)
  else if c = ')' then .ok (.closing, rest)
  else if startsWithMod (c :: rest) then .ok (.modulus, rest.drop 2)
  else if isNumberChar c then takeNumber (c :: rest)
  else .error (.invalidCharacter c)

theorem length_dropWhile_le (p : Char → Bool) (cs : List Char) :
    (cs.dropWhile p).length ≤ cs.length :=
  (List.dropWhile_sublist p).length_le

/-- A token takes at least its first character. -/
theorem length_of_takeToken {c : Char} {rest tail : List Char} {t : Token}
    (h : takeToken c rest = .ok (t, tail)) : tail.length ≤ rest.length := by
  simp only [takeToken] at h
  split at h
  · cases h
    exact Nat.le_refl _
  split at h
  · cases h
    exact Nat.le_refl _
  split at h
  · cases h
    exact Nat.le_refl _
  split at h
  · cases h
    exact Nat.le_refl _
  split at h
  · cases h
    simp
  split at h
  · next hc =>
    simp only [takeNumber] at h
    split at h
    · cases h
    · cases h
      simp only [List.dropWhile_cons, hc, if_true]
      exact length_dropWhile_le _ _
  · cases h

/-! ### All tokens -/

/-- The tokens of a text, read from the left up to the first fault. -/
def scan : List Char → Except Fault (List Token)
  | [] => .ok []
  | c :: rest =>
    if isBlank c then scan rest
    else
      match h : takeToken c rest with
      | .error fault => .error fault
      | .ok (t, tail) =>
        have : tail.length ≤ rest.length := length_of_takeToken h
        (t :: ·) <$> scan tail
termination_by cs => cs.length

/-- The tokens of an expression of at most `limit` characters. -/
def tokenize (limit : Nat) (expression : List Char) : Except Fault (List Token) :=
  let cs := normalizeText expression
  if cs.isEmpty then .error .emptyExpression
  else if limit < cs.length then .error .tooLong
  else scan cs

end PocketCalculator
