import PocketCalculator.Expression.Token

/-!
# Parentheses

Parentheses are balanced if none is closed that is not open, and none is left open.
-/

namespace PocketCalculator

/-- How many parentheses are open after the tokens, when `depth` of them were open before; none if
one is closed that is not open. -/
def openAfter : Nat → List Token → Option Nat
  | depth, [] => some depth
  | depth, t :: ts =>
    match t.kind with
    | .opening => openAfter (depth + 1) ts
    | .closing =>
      match depth with
      | 0 => none
      | depth + 1 => openAfter depth ts
    | _ => openAfter depth ts

def balanced (tokens : List Token) : Bool := openAfter 0 tokens == some 0

def checkParentheses (tokens : List Token) : Except Fault Unit :=
  if balanced tokens then .ok () else .error .unbalanced

theorem openAfter_append (depth : Nat) (ts us : List Token) :
    openAfter depth (ts ++ us) = (openAfter depth ts).bind (openAfter · us) := by
  fun_induction openAfter depth ts with
  | case1 depth => rfl
  | case2 depth t ts h ih => simp only [List.cons_append, openAfter, h, ih]
  | case3 t ts h => simp only [List.cons_append, openAfter, h, Option.bind_none]
  | case4 t ts h depth ih => simp only [List.cons_append, openAfter, h, ih]
  | case5 depth t ts h1 h2 ih =>
    simp only [List.cons_append, openAfter]
    exact ih

end PocketCalculator
