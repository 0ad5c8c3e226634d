import PocketCalculator.Expression.Evaluator

/-!
# The grammar of expressions

An expression is a sum of terms, a term a product of factors, a factor a number or a group with
signs in front of it and percent signs after it. A tree has tokens, which spell it out, and a value,
which is computed from the values of its parts alone. The value is taken in any arithmetic: in the
calculator's decimals it is what the evaluator is to compute, in the rationals it is exact.
-/

namespace PocketCalculator

/-- The operations of a term. -/
inductive Scaling where
  | times
  | divided
  | modulo
  deriving DecidableEq

mutual

/-- A sum of terms, from the left; `true` is a minus. -/
inductive Expr where
  | single (t : Term)
  | chain (e : Expr) (minus : Bool) (t : Term)

/-- A product of factors, from the left. -/
inductive Term where
  | single (f : Factor)
  | chain (t : Term) (op : Scaling) (f : Factor)

/-- Signs before a number or group, and the number of percent signs after it. -/
inductive Factor where
  | signed (minus : Bool) (f : Factor)
  | plain (x : Primary) (percents : Nat)

/-- A number or a group in parentheses. -/
inductive Primary where
  | number (text : List Char)
  | group (e : Expr)

end

/-! ### Tokens -/

def Scaling.operator : Scaling → Operator
  | .times => .mul
  | .divided => .div
  | .modulo => .rem

def Scaling.token : Scaling → Token
  | .times => .operator '*'
  | .divided => .operator '/'
  | .modulo => .modulus

def signOperator (minus : Bool) : Operator := if minus then .sub else .add

def signToken (minus : Bool) : Token := .operator (if minus then '-' else '+')

mutual

def Expr.tokens : Expr → List Token
  | .single t => t.tokens
  | .chain e minus t => e.tokens ++ signToken minus :: t.tokens

def Term.tokens : Term → List Token
  | .single f => f.tokens
  | .chain t op f => t.tokens ++ op.token :: f.tokens

def Factor.tokens : Factor → List Token
  | .signed minus f => signToken minus :: f.tokens
  | .plain x percents => x.tokens ++ List.replicate percents .percent

def Primary.tokens : Primary → List Token
  | .number text => [.number text]
  | .group e => .opening :: (e.tokens ++ [.closing])

end

/-! ### Nesting -/

mutual

/-- How deeply the operands are nested: parentheses count three, a sign one. -/
def Expr.depth : Expr → Nat
  | .single t => t.depth
  | .chain e _ t => max e.depth t.depth

def Term.depth : Term → Nat
  | .single f => f.depth
  | .chain t _ f => max t.depth f.depth

def Factor.depth : Factor → Nat
  | .signed _ f => f.depth + 1
  | .plain x _ => x.depth

def Primary.depth : Primary → Nat
  | .number _ => 0
  | .group e => e.depth + 3

end

/-! ### Values -/

/-- An arithmetic: what number texts, operations and percent signs mean. Each of them may fail. -/
structure Arithmetic (ε α : Type) where
  number : List Char → Except ε α
  negate : α → Except ε α
  apply : Operator → α → α → Except ε α
  percent : α → Except ε α
  percentOf : α → α → Except ε α

namespace Arithmetic

variable {ε α : Type} (A : Arithmetic ε α)

/-- The value of `x` with percent signs. Each one takes a hundredth, but the first one takes `x`
percent of the whole, if there is one. -/
def marked (whole : Option α) (x : α) : Nat → Except ε α
  | 0 => .ok x
  | 1 =>
    match whole with
    | some w => A.percentOf w x
    | none => A.percent x
  | k + 2 => do A.percent (← marked whole x (k + 1))

def signed (minus : Bool) (x : α) : Except ε α := if minus then A.negate x else .ok x

end Arithmetic

section Value

variable {ε α : Type} (A : Arithmetic ε α)

mutual

/-- The value of a sum. In every term but the first, the operand directly before the sign is the
whole that a percent sign refers to. -/
def Expr.value : Expr → Except ε α
  | .single t => t.value none
  | .chain e minus t => do
    let x ← e.value
    let whole ← e.whole
    let y ← t.value whole
    A.apply (signOperator minus) x y

/-- The last number or group without its signs, unless it carries a percent sign. -/
def Expr.whole : Expr → Except ε (Option α)
  | .single t => t.whole
  | .chain _ _ t => t.whole

/-- The value of a product; `whole` concerns its first factor. -/
def Term.value : Term → Option α → Except ε α
  | .single f, whole => f.value whole
  | .chain t op f, whole => do
    let x ← t.value whole
    let y ← f.value none
    A.apply op.operator x y

def Term.whole : Term → Except ε (Option α)
  | .single f => f.whole
  | .chain _ _ f => f.whole

/-- The value of a factor; `whole` concerns it only if it has no sign. -/
def Factor.value : Factor → Option α → Except ε α
  | .signed minus f, _ => do A.signed minus (← f.value none)
  | .plain x percents, whole => do A.marked whole (← x.value) percents

def Factor.whole : Factor → Except ε (Option α)
  | .signed _ f => f.whole
  | .plain x percents => if percents = 0 then some <$> x.value else .ok none

def Primary.value : Primary → Except ε α
  | .number text => A.number text
  | .group e => e.value

end

end Value

/-- The calculator's own arithmetic: every operation rounds and checks the range. -/
def Arithmetic.decimals : Arithmetic Failure Extended where
  number text :=
    match Extended.ofText? text with
    | some x => .ok x
    | none => .error (.fault .invalidNumber)
  negate := negated
  apply op x y := .finite <$> op.apply x y
  percent x := .finite <$> PocketCalculator.percent x
  percentOf whole x := .finite <$> PocketCalculator.percentOf whole x

end PocketCalculator
