import PocketCalculator.Decimal.Reader
import PocketCalculator.Expression.Operation
import PocketCalculator.Expression.Token

/-!
# The evaluator

An expression is a sum of terms, a term a product of factors, and a factor a number or a group in
parentheses with signs in front of it and percent signs after it. The evaluator reads the tokens
from left to right and computes as it goes, so of two faults the first one is reported.

A percent sign means a hundredth, with one exception: in `A + B%` and `A - B%` it means that part
of `A`, where `A` is the number or group directly before the sign.
-/

namespace PocketCalculator

/-! ### What has been read -/

/-- A sum that waits for its next term: its value so far, whether the term is to be subtracted,
and the operand before the sign, unless that one carried a percent sign. -/
structure OpenSum where
  left : Extended
  subtract : Bool
  whole : Option Extended

/-- A product that waits for its next factor. -/
structure OpenProduct where
  left : Extended
  op : Operator

/-- What has been read inside one pair of parentheses, up to the factor that comes next: the open
sum, the open product, and the signs of that factor, the last one first; `true` is a minus. -/
structure Group where
  sum : Option OpenSum
  product : Option OpenProduct
  signs : List Bool

/-- A number or a group that has been read: its value with its percent signs but without the
signs in front of it, and whether there was no percent sign. -/
structure Operand where
  value : Extended
  bare : Bool

/-- What has been read of an expression: the groups around the innermost one, from the inside, the
innermost one, and its last operand if an operator is expected next. -/
structure Progress where
  outer : List Group
  group : Group
  operand : Option Operand

namespace Group

def empty : Group := ⟨none, none, []⟩

def isEmpty (g : Group) : Bool := g.sum.isNone && g.product.isNone && g.signs.isEmpty

/-- What the first percent sign after the next operand refers to: the operand before the sign of
the open sum, if the next operand starts the term and has no sign of its own. -/
def whole (g : Group) : Option Extended :=
  if g.product.isNone && g.signs.isEmpty then g.sum.bind (·.whole) else none

def signed (g : Group) (x : Extended) : Except Failure Extended :=
  g.signs.foldlM (fun y minus => if minus then negated y else .ok y) x

/-- The value of the product, with `x` as its last factor. -/
def closeProduct (g : Group) (x : Extended) : Except Failure Extended := do
  let y ← g.signed x
  match g.product with
  | none => .ok y
  | some p => .finite <$> p.op.apply p.left y

/-- The value of the sum, with `x` as the last factor of its last term. -/
def closeSum (g : Group) (x : Extended) : Except Failure Extended := do
  let y ← g.closeProduct x
  match g.sum with
  | none => .ok y
  | some s => .finite <$> (if s.subtract then Operator.sub else Operator.add).apply s.left y

end Group

namespace Operand

/-- The operand with one more percent sign. -/
def withPercent (x : Operand) (whole : Option Extended) : Except Failure Operand := do
  let value ←
    match whole, x.bare with
    | some w, true => percentOf w x.value
    | _, _ => percent x.value
  .ok ⟨.finite value, false⟩

/-- What a percent sign in the next term can refer to. -/
def asWhole (x : Operand) : Option Extended := if x.bare then some x.value else none

end Operand

namespace Progress

def start : Progress := ⟨[], .empty, none⟩

/-! ### Nesting -/

/-- How deeply the next operand is nested: a parenthesis counts three, a sign one. -/
def depth (p : Progress) : Nat :=
  3 * p.outer.length + (p.group :: p.outer).foldl (fun n g => n + g.signs.length) 0

/-- What has been read, unless it is nested more deeply than there is room for. -/
def checkDepth (nesting : Nat) (p : Progress) : Except Failure Progress :=
  if nesting < p.depth then .error (.fault .tooComplex) else .ok p

/-! ### One token -/

/-- Reads a token where an operand is expected. -/
def readOperand (nesting : Nat) (p : Progress) (t : Token) : Except Failure Progress :=
  match t.kind with
  | .number =>
    match Extended.ofText? t.text with
    | some x => .ok { p with operand := some ⟨x, true⟩ }
    | none => .error (.fault .invalidNumber)
  | .opening => checkDepth nesting ⟨p.group :: p.outer, .empty, none⟩
  | .closing =>
    if !p.outer.isEmpty && p.group.isEmpty then .error (.fault .emptyParentheses)
    else .error (.fault (.unexpected t.text))
  | .operator =>
    match Operator.ofText? t.text with
    | some .add => checkDepth nesting { p with group.signs := false :: p.group.signs }
    | some .sub => checkDepth nesting { p with group.signs := true :: p.group.signs }
    | _ => .error (.fault (.unexpected t.text))
  | .percent => .error (.fault (.unexpected t.text))

/-- Reads a binary operator after the operand `x`. -/
def readOperator (p : Progress) (x : Operand) (op : Operator) : Except Failure Progress :=
  match op with
  | .add => do
    let left ← p.group.closeSum x.value
    .ok { p with group := ⟨some ⟨left, false, x.asWhole⟩, none, []⟩, operand := none }
  | .sub => do
    let left ← p.group.closeSum x.value
    .ok { p with group := ⟨some ⟨left, true, x.asWhole⟩, none, []⟩, operand := none }
  | op => do
    let left ← p.group.closeProduct x.value
    .ok { p with group := ⟨p.group.sum, some ⟨left, op⟩, []⟩, operand := none }

/-- A token that cannot follow an operand: within parentheses, these are missing their end. -/
def misplaced (p : Progress) (t : Token) : Fault :=
  if p.outer.isEmpty then .unexpected t.text else .unbalanced

/-- Reads a token after the operand `x`. -/
def readAfter (p : Progress) (x : Operand) (t : Token) : Except Failure Progress :=
  match t.kind with
  | .percent => do
    let y ← x.withPercent p.group.whole
    .ok { p with operand := some y }
  | .closing => do
    let value ← p.group.closeSum x.value
    match p.outer with
    | [] => .error (.fault (p.misplaced t))
    | g :: outer => .ok ⟨outer, g, some ⟨value, true⟩⟩
  | .operator =>
    match Operator.ofText? t.text with
    | some op => p.readOperator x op
    | none => do
      let _ ← p.group.closeSum x.value
      .error (.fault (p.misplaced t))
  | _ => do
    let _ ← p.group.closeSum x.value
    .error (.fault (p.misplaced t))

def read (nesting : Nat) (p : Progress) (t : Token) : Except Failure Progress :=
  match p.operand with
  | none => p.readOperand nesting t
  | some x => p.readAfter x t

/-! ### All tokens -/

/-- Reads tokens from left to right. -/
def readAll (nesting : Nat) : Progress → List Token → Except Failure Progress
  | p, [] => .ok p
  | p, t :: ts => do
    let q ← p.read nesting t
    readAll nesting q ts

/-- The value of the expression, when all its tokens have been read. -/
def finish (p : Progress) : Except Failure Extended :=
  match p.operand with
  | none => .error (.fault .expectedNumber)
  | some x => do
    let value ← p.group.closeSum x.value
    if p.outer.isEmpty then .ok value else .error (.fault .unbalanced)

theorem readAll_append (nesting : Nat) (p : Progress) (ts us : List Token) :
    readAll nesting p (ts ++ us) = (do let q ← readAll nesting p ts; readAll nesting q us) := by
  induction ts generalizing p with
  | nil => rfl
  | cons t ts ih =>
    simp only [List.cons_append, readAll, bind_assoc, ih]

end Progress

/-- The value of an expression given by its tokens, nested at most this deeply. It is not yet
brought into range: a lone number is as it was written. -/
def compute (nesting : Nat) (tokens : List Token) : Except Failure Extended := do
  let p ← Progress.start.readAll nesting tokens
  p.finish

end PocketCalculator
