import PocketCalculator.Proofs.Expression.Grammar
import PocketCalculator.Proofs.Outcome

/-!
# Reading trees from tokens

A token machine without arithmetic, which grows a tree where the evaluator computes a value. What it
has read so far spells out the tokens that it has seen (`tokens_of_push`), and a tree is read back
from its tokens (`pushAll_tokens`). So tokens are the tokens of at most one tree.
-/

namespace PocketCalculator

/-- What has been read inside one pair of parentheses, up to the factor that comes next: the sum
before the last sign, `true` if that is a minus, the product before the last operator, and the signs
of the factor, the last one first. -/
structure OpenGroup where
  sum : Option (Expr × Bool)
  product : Option (Term × Scaling)
  signs : List Bool

/-- What has been read of an expression: the groups around the innermost one, from the inside, the
innermost one, and the operand that has been read last with the number of its percent signs. -/
structure Reading where
  outer : List OpenGroup
  group : OpenGroup
  operand : Option (Primary × Nat)

namespace OpenGroup

def empty : OpenGroup := ⟨none, none, []⟩

/-- The factor, with `x` as its number or group. -/
def closeFactor (g : OpenGroup) (x : Primary) (percents : Nat) : Factor :=
  g.signs.foldl (fun f minus => .signed minus f) (.plain x percents)

/-- The term, with `x` in its last factor. -/
def closeTerm (g : OpenGroup) (x : Primary) (percents : Nat) : Term :=
  match g.product with
  | none => .single (g.closeFactor x percents)
  | some (t, op) => .chain t op (g.closeFactor x percents)

/-- The expression, with `x` in the last factor of its last term. -/
def closeExpr (g : OpenGroup) (x : Primary) (percents : Nat) : Expr :=
  match g.sum with
  | none => .single (g.closeTerm x percents)
  | some (e, minus) => .chain e minus (g.closeTerm x percents)

end OpenGroup

namespace Reading

def start : Reading := ⟨[], .empty, none⟩

/-- How deeply the next operand is nested. -/
def depth (r : Reading) : Nat :=
  3 * r.outer.length + (r.group :: r.outer).foldl (fun n g => n + g.signs.length) 0

def checkDepth (nesting : Nat) (r : Reading) : Option Reading :=
  if nesting < r.depth then none else some r

/-! ### One token -/

/-- Reads a token where an operand is expected. -/
def pushOperand (nesting : Nat) (r : Reading) (t : Token) : Option Reading :=
  match t.kind with
  | .number => some { r with operand := some (.number t.text, 0) }
  | .opening => checkDepth nesting ⟨r.group :: r.outer, .empty, none⟩
  | .operator =>
    match Operator.ofText? t.text with
    | some .add => checkDepth nesting { r with group.signs := false :: r.group.signs }
    | some .sub => checkDepth nesting { r with group.signs := true :: r.group.signs }
    | _ => none
  | _ => none

/-- Reads a binary operator after the operand `x`. -/
def pushOperator (r : Reading) (x : Primary) (percents : Nat) : Operator → Reading
  | .add => ⟨r.outer, ⟨some (r.group.closeExpr x percents, false), none, []⟩, none⟩
  | .sub => ⟨r.outer, ⟨some (r.group.closeExpr x percents, true), none, []⟩, none⟩
  | .mul => ⟨r.outer, ⟨r.group.sum, some (r.group.closeTerm x percents, .times), []⟩, none⟩
  | .div => ⟨r.outer, ⟨r.group.sum, some (r.group.closeTerm x percents, .divided), []⟩, none⟩
  | .rem => ⟨r.outer, ⟨r.group.sum, some (r.group.closeTerm x percents, .modulo), []⟩, none⟩

/-- Reads a token after the operand `x`. -/
def pushAfter (r : Reading) (x : Primary) (percents : Nat) (t : Token) : Option Reading :=
  match t.kind with
  | .percent => some { r with operand := some (x, percents + 1) }
  | .closing =>
    match r.outer with
    | [] => none
    | g :: outer => some ⟨outer, g, some (.group (r.group.closeExpr x percents), 0)⟩
  | .operator => (Operator.ofText? t.text).map (r.pushOperator x percents)
  | _ => none

/-- Reads one token, where an operand may be nested up to `nesting`. -/
def push (nesting : Nat) (r : Reading) (t : Token) : Option Reading :=
  match r.operand with
  | none => r.pushOperand nesting t
  | some (x, percents) => r.pushAfter x percents t

def pushAll (nesting : Nat) : Reading → List Token → Option Reading
  | r, [] => some r
  | r, t :: ts => (r.push nesting t).bind (pushAll nesting · ts)

/-- The tree, when all tokens have been read. -/
def finish (r : Reading) : Option Expr :=
  match r.operand, r.outer with
  | some (x, percents), [] => some (r.group.closeExpr x percents)
  | _, _ => none

end Reading

/-! ### What has been read spells out the tokens -/

/-- The token has the text of its kind. -/
def Token.IsSpelled (t : Token) : Prop :=
  match t.kind with
  | .percent => t.text = ['%']
  | .opening => t.text = ['(']
  | .closing => t.text = [')']
  | _ => True

namespace OpenGroup

def tokens (g : OpenGroup) : List Token :=
  (match g.sum with
    | none => []
    | some (e, minus) => e.tokens ++ [signToken minus]) ++
  (match g.product with
    | none => []
    | some (t, op) => t.tokens ++ [op.token]) ++
  g.signs.reverse.map signToken

theorem tokens_closeFactor (g : OpenGroup) (x : Primary) (percents : Nat) :
    (g.closeFactor x percents).tokens =
      g.signs.reverse.map signToken ++ (x.tokens ++ List.replicate percents .percent) := by
  obtain ⟨sum, product, signs⟩ := g
  have h : ∀ f : Factor, (signs.foldl (fun f minus => Factor.signed minus f) f).tokens =
      signs.reverse.map signToken ++ f.tokens := by
    induction signs with
    | nil =>
      intro f
      rfl
    | cons minus signs ih =>
      intro f
      simp only [List.foldl_cons, ih, Factor.tokens, List.reverse_cons, List.map_append,
        List.map_cons, List.map_nil, List.append_assoc, List.singleton_append]
  exact h (.plain x percents)

theorem tokens_closeTerm (g : OpenGroup) (x : Primary) (percents : Nat) :
    (g.closeTerm x percents).tokens =
      (match g.product with
        | none => []
        | some (t, op) => t.tokens ++ [op.token]) ++ (g.closeFactor x percents).tokens := by
  unfold closeTerm
  cases g.product with
  | none => rfl
  | some p => simp [Term.tokens]

theorem tokens_closeExpr (g : OpenGroup) (x : Primary) (percents : Nat) :
    (g.closeExpr x percents).tokens =
      g.tokens ++ (x.tokens ++ List.replicate percents .percent) := by
  have h : (g.closeExpr x percents).tokens =
      (match g.sum with
        | none => []
        | some (e, minus) => e.tokens ++ [signToken minus]) ++ (g.closeTerm x percents).tokens := by
    unfold closeExpr
    cases g.sum with
    | none => rfl
    | some p => simp [Expr.tokens]
  rw [h, tokens_closeTerm, tokens_closeFactor, tokens]
  simp only [List.append_assoc]

end OpenGroup

namespace Reading

def outerTokens : List OpenGroup → List Token
  | [] => []
  | g :: outer => outerTokens outer ++ (g.tokens ++ [.opening])

def tokens (r : Reading) : List Token :=
  outerTokens r.outer ++ (r.group.tokens ++
    match r.operand with
    | none => []
    | some (x, percents) => x.tokens ++ List.replicate percents .percent)

end Reading

theorem signToken_of_ofText? {t : Token} {minus : Bool} (hkind : t.kind = .operator)
    (h : Operator.ofText? t.text = some (signOperator minus)) : signToken minus = t := by
  obtain ⟨kind, text⟩ := t
  subst hkind
  unfold Operator.ofText? at h
  cases minus <;> split at h <;> simp_all [signOperator, signToken, Token.operator]

theorem Scaling.token_of_ofText? {t : Token} {op : Scaling} (hkind : t.kind = .operator)
    (h : Operator.ofText? t.text = some op.operator) : op.token = t := by
  obtain ⟨kind, text⟩ := t
  subst hkind
  unfold Operator.ofText? at h
  cases op <;> split at h <;>
    simp_all [Scaling.operator, Scaling.token, Token.operator, Token.modulus]

namespace Token

theorem eq_number {t : Token} (hkind : t.kind = .number) : Token.number t.text = t := by
  obtain ⟨kind, text⟩ := t
  subst hkind
  rfl

theorem eq_percent {t : Token} (ht : t.IsSpelled) (hkind : t.kind = .percent) :
    Token.percent = t := by
  obtain ⟨kind, text⟩ := t
  subst hkind
  exact congrArg (Token.mk .percent) (Eq.symm ht)

theorem eq_opening {t : Token} (ht : t.IsSpelled) (hkind : t.kind = .opening) :
    Token.opening = t := by
  obtain ⟨kind, text⟩ := t
  subst hkind
  exact congrArg (Token.mk .opening) (Eq.symm ht)

theorem eq_closing {t : Token} (ht : t.IsSpelled) (hkind : t.kind = .closing) :
    Token.closing = t := by
  obtain ⟨kind, text⟩ := t
  subst hkind
  exact congrArg (Token.mk .closing) (Eq.symm ht)

end Token

namespace Reading

theorem checkDepth_of_le {nesting : Nat} {r : Reading} (h : r.depth ≤ nesting) :
    r.checkDepth nesting = some r := if_neg (Nat.not_lt.mpr h)

theorem checkDepth_of_lt {nesting : Nat} {r : Reading} (h : nesting < r.depth) :
    r.checkDepth nesting = none := if_pos h

theorem checkDepth_eq_some {nesting : Nat} {r s : Reading} :
    r.checkDepth nesting = some s ↔ r.depth ≤ nesting ∧ r = s := by
  by_cases h : r.depth ≤ nesting
  · rw [checkDepth_of_le h, Option.some.injEq]
    exact (and_iff_right h).symm
  · rw [checkDepth_of_lt (Nat.lt_of_not_le h)]
    simp [h]

theorem checkDepth_eq_none {nesting : Nat} {r : Reading} :
    r.checkDepth nesting = none ↔ nesting < r.depth := by
  by_cases h : r.depth ≤ nesting
  · rw [checkDepth_of_le h]
    simp [h]
  · rw [checkDepth_of_lt (Nat.lt_of_not_le h)]
    simp [Nat.lt_of_not_le h]

theorem tokens_of_pushOperand {nesting : Nat} {r s : Reading} {t : Token} (hr : r.operand = none)
    (ht : t.IsSpelled) (h : r.pushOperand nesting t = some s) : s.tokens = r.tokens ++ [t] := by
  have hsign : ∀ minus, Operator.ofText? t.text = some (signOperator minus) →
      t.kind = .operator →
      tokens { r with group.signs := minus :: r.group.signs } = r.tokens ++ [t] := by
    intro minus hop hkind
    simp [tokens, OpenGroup.tokens, hr, signToken_of_ofText? hkind hop]
  unfold pushOperand at h
  cases hkind : t.kind with
  | number =>
    rw [hkind] at h
    cases Option.some.inj h
    simp [tokens, hr, Primary.tokens, Token.eq_number hkind]
  | opening =>
    rw [hkind] at h
    obtain ⟨_, rfl⟩ := checkDepth_eq_some.mp h
    simp [tokens, outerTokens, OpenGroup.tokens, OpenGroup.empty, hr, Token.eq_opening ht hkind]
  | operator =>
    rw [hkind] at h
    cases hop : Operator.ofText? t.text with
    | none => simp [hop] at h
    | some op =>
      cases op with
      | add =>
        simp only [hop] at h
        obtain ⟨_, rfl⟩ := checkDepth_eq_some.mp h
        exact hsign false hop hkind
      | sub =>
        simp only [hop] at h
        obtain ⟨_, rfl⟩ := checkDepth_eq_some.mp h
        exact hsign true hop hkind
      | mul => simp [hop] at h
      | div => simp [hop] at h
      | rem => simp [hop] at h
  | percent => simp [hkind] at h
  | closing => simp [hkind] at h

theorem tokens_pushOperator {r : Reading} {x : Primary} {percents : Nat} {t : Token}
    {op : Operator} (hr : r.operand = some (x, percents)) (hkind : t.kind = .operator)
    (hop : Operator.ofText? t.text = some op) :
    (r.pushOperator x percents op).tokens = r.tokens ++ [t] := by
  have hsum : ∀ minus, signToken minus = t →
      tokens ⟨r.outer, ⟨some (r.group.closeExpr x percents, minus), none, []⟩, none⟩ =
        r.tokens ++ [t] := by
    intro minus hsign
    simp [tokens, OpenGroup.tokens, hr, OpenGroup.tokens_closeExpr, hsign]
  have hproduct : ∀ scaling : Scaling, scaling.token = t →
      tokens ⟨r.outer, ⟨r.group.sum, some (r.group.closeTerm x percents, scaling), []⟩, none⟩ =
        r.tokens ++ [t] := by
    intro scaling hscaling
    simp [tokens, OpenGroup.tokens, hr, OpenGroup.tokens_closeTerm, OpenGroup.tokens_closeFactor,
      hscaling]
  cases op with
  | add => exact hsum false (signToken_of_ofText? hkind hop)
  | sub => exact hsum true (signToken_of_ofText? hkind hop)
  | mul => exact hproduct .times (Scaling.token_of_ofText? hkind hop)
  | div => exact hproduct .divided (Scaling.token_of_ofText? hkind hop)
  | rem => exact hproduct .modulo (Scaling.token_of_ofText? hkind hop)

theorem tokens_of_pushAfter {r s : Reading} {x : Primary} {percents : Nat} {t : Token}
    (hr : r.operand = some (x, percents)) (ht : t.IsSpelled)
    (h : r.pushAfter x percents t = some s) : s.tokens = r.tokens ++ [t] := by
  unfold pushAfter at h
  cases hkind : t.kind with
  | percent =>
    rw [hkind] at h
    cases Option.some.inj h
    simp [tokens, hr, List.replicate_succ', Token.eq_percent ht hkind]
  | closing =>
    rw [hkind] at h
    cases houter : r.outer with
    | nil => simp [houter] at h
    | cons g outer =>
      simp only [houter] at h
      cases Option.some.inj h
      simp [tokens, houter, hr, outerTokens, Primary.tokens, OpenGroup.tokens_closeExpr,
        Token.eq_closing ht hkind]
  | operator =>
    simp only [hkind] at h
    obtain ⟨op, hop, rfl⟩ := Option.map_eq_some_iff.mp h
    exact tokens_pushOperator hr hkind hop
  | number => simp [hkind] at h
  | opening => simp [hkind] at h

theorem tokens_of_push {nesting : Nat} {r s : Reading} {t : Token} (ht : t.IsSpelled)
    (h : r.push nesting t = some s) : s.tokens = r.tokens ++ [t] := by
  unfold push at h
  cases hr : r.operand with
  | none =>
    simp only [hr] at h
    exact tokens_of_pushOperand hr ht h
  | some operand =>
    simp only [hr] at h
    exact tokens_of_pushAfter hr ht h

theorem tokens_of_pushAll {nesting : Nat} {r s : Reading} {ts : List Token}
    (hts : ∀ t ∈ ts, t.IsSpelled) (h : r.pushAll nesting ts = some s) :
    s.tokens = r.tokens ++ ts := by
  induction ts generalizing r with
  | nil =>
    cases Option.some.inj h
    simp
  | cons t ts ih =>
    obtain ⟨q, hq, hs⟩ := Option.bind_eq_some_iff.mp h
    rw [ih (fun u hu => hts u (List.mem_cons_of_mem t hu)) hs,
      tokens_of_push (hts t (List.mem_cons_self ..)) hq, List.append_assoc,
      List.singleton_append]

/-- A tree that has been read spells out the tokens that were read. -/
theorem tokens_of_finish {nesting : Nat} {s : Reading} {ts : List Token} {e : Expr}
    (hts : ∀ t ∈ ts, t.IsSpelled) (h : start.pushAll nesting ts = some s) (he : s.finish = some e) :
    e.tokens = ts := by
  have hs := tokens_of_pushAll hts h
  unfold finish at he
  split at he
  · next x percents hx houter =>
    cases Option.some.inj he
    rw [OpenGroup.tokens_closeExpr]
    simpa [tokens, hx, houter, outerTokens, start, OpenGroup.tokens, OpenGroup.empty] using hs
  · cases he

end Reading

/-! ### Trees are read back from their tokens -/

/-- The signs of a factor, the last one first, before those that are given. -/
def Factor.signs : Factor → List Bool → List Bool
  | .signed minus f, signs => f.signs (minus :: signs)
  | .plain _ _, signs => signs

def Factor.primary : Factor → Primary
  | .signed _ f => f.primary
  | .plain x _ => x

def Factor.percents : Factor → Nat
  | .signed _ f => f.percents
  | .plain _ percents => percents

def Term.before : Term → Option (Term × Scaling)
  | .single _ => none
  | .chain t op _ => some (t, op)

def Term.last : Term → Factor
  | .single f => f
  | .chain _ _ f => f

def Expr.before : Expr → Option (Expr × Bool)
  | .single _ => none
  | .chain e minus _ => some (e, minus)

def Expr.last : Expr → Term
  | .single t => t
  | .chain _ _ t => t

/-- What has been read when a factor has been read after `g`. -/
def Factor.read (f : Factor) (outer : List OpenGroup) (g : OpenGroup) : Reading :=
  ⟨outer, { g with signs := f.signs g.signs }, some (f.primary, f.percents)⟩

def Term.read (t : Term) (outer : List OpenGroup) (sum : Option (Expr × Bool)) : Reading :=
  t.last.read outer ⟨sum, t.before, []⟩

def Expr.read (e : Expr) (outer : List OpenGroup) : Reading := e.last.read outer e.before

theorem Factor.foldl_signs : ∀ (f : Factor) (signs : List Bool),
    (f.signs signs).foldl (fun f minus => .signed minus f) (.plain f.primary f.percents) =
      signs.foldl (fun f minus => .signed minus f) f
  | .signed minus f, signs => f.foldl_signs (minus :: signs)
  | .plain _ _, _ => rfl

theorem Term.closeTerm_read (t : Term) (sum : Option (Expr × Bool)) :
    OpenGroup.closeTerm ⟨sum, t.before, t.last.signs []⟩ t.last.primary t.last.percents = t := by
  cases t with
  | single f => exact congrArg Term.single (f.foldl_signs [])
  | chain t op f => exact congrArg (Term.chain t op) (f.foldl_signs [])

theorem Expr.closeExpr_read (e : Expr) :
    OpenGroup.closeExpr ⟨e.before, e.last.before, e.last.last.signs []⟩ e.last.last.primary
      e.last.last.percents = e := by
  cases e with
  | single t => exact congrArg Expr.single (t.closeTerm_read none)
  | chain e minus t => exact congrArg (Expr.chain e minus) (t.closeTerm_read (some (e, minus)))

namespace Reading

theorem foldl_signs (gs : List OpenGroup) (n : Nat) :
    gs.foldl (fun n g => n + g.signs.length) n =
      n + gs.foldl (fun n g => n + g.signs.length) 0 := by
  induction gs generalizing n with
  | nil => rfl
  | cons g gs ih =>
    rw [List.foldl_cons, ih, List.foldl_cons, ih (0 + g.signs.length)]
    omega

theorem depth_group (outer : List OpenGroup) (g : OpenGroup) (o o' : Option (Primary × Nat)) :
    depth ⟨g :: outer, .empty, o⟩ = depth ⟨outer, g, o'⟩ + 3 := by
  simp only [depth, OpenGroup.empty, List.foldl_cons, List.length_nil, List.length_cons,
    Nat.add_zero]
  omega

theorem depth_sign (outer : List OpenGroup) (g : OpenGroup) (minus : Bool)
    (o o' : Option (Primary × Nat)) :
    depth ⟨outer, { g with signs := minus :: g.signs }, o⟩ = depth ⟨outer, g, o'⟩ + 1 := by
  simp only [depth, List.foldl_cons, List.length_cons]
  rw [foldl_signs, foldl_signs outer (0 + g.signs.length)]
  omega

theorem push_signToken (nesting : Nat) (outer : List OpenGroup) (g : OpenGroup) (minus : Bool) :
    push nesting ⟨outer, g, none⟩ (signToken minus) =
      checkDepth nesting ⟨outer, { g with signs := minus :: g.signs }, none⟩ := by
  cases minus with
  | false => rfl
  | true => rfl

theorem push_sum (nesting : Nat) (outer : List OpenGroup) (g : OpenGroup) (x : Primary)
    (percents : Nat) (minus : Bool) :
    push nesting ⟨outer, g, some (x, percents)⟩ (signToken minus) =
      some ⟨outer, ⟨some (g.closeExpr x percents, minus), none, []⟩, none⟩ := by
  cases minus with
  | false => rfl
  | true => rfl

theorem push_product (nesting : Nat) (outer : List OpenGroup) (g : OpenGroup) (x : Primary)
    (percents : Nat) (op : Scaling) :
    push nesting ⟨outer, g, some (x, percents)⟩ op.token =
      some ⟨outer, ⟨g.sum, some (g.closeTerm x percents, op), []⟩, none⟩ := by
  cases op with
  | times => rfl
  | divided => rfl
  | modulo => rfl

theorem pushAll_cons {nesting : Nat} {r s : Reading} {t : Token} (h : r.push nesting t = some s)
    (ts : List Token) : r.pushAll nesting (t :: ts) = s.pushAll nesting ts := by
  simp [pushAll, h]

theorem pushAll_percents (nesting : Nat) (outer : List OpenGroup) (g : OpenGroup) (x : Primary)
    (n percents : Nat) (ts : List Token) :
    pushAll nesting ⟨outer, g, some (x, n)⟩ (List.replicate percents .percent ++ ts) =
      pushAll nesting ⟨outer, g, some (x, n + percents)⟩ ts := by
  induction percents generalizing n with
  | zero => rfl
  | succ percents ih =>
    rw [List.replicate_succ, List.cons_append,
      pushAll_cons (s := ⟨outer, g, some (x, n + 1)⟩) rfl, ih,
      show n + 1 + percents = n + (percents + 1) by omega]

end Reading

open Reading

variable {nesting : Nat}

mutual

/-- The tokens of a tree are read as that tree, if it is not nested too deeply. -/
theorem Expr.pushAll_tokens (e : Expr) (outer : List OpenGroup) (ts : List Token)
    (h : depth ⟨outer, .empty, none⟩ ≤ nesting) :
    pushAll nesting ⟨outer, .empty, none⟩ (e.tokens ++ ts) =
      if depth ⟨outer, .empty, none⟩ + e.depth ≤ nesting then pushAll nesting (e.read outer) ts
      else none :=
  match e with
  | .single t => t.pushAll_tokens outer none ts h
  | .chain e minus t => by
    have hdepth : depth ⟨outer, ⟨some (e, minus), none, []⟩, none⟩ =
        depth ⟨outer, .empty, none⟩ := rfl
    have hread : push nesting (e.read outer) (signToken minus) =
        some ⟨outer, ⟨some (e, minus), none, []⟩, none⟩ :=
      (push_sum ..).trans (by rw [Expr.closeExpr_read])
    have ht := t.pushAll_tokens outer (some (e, minus)) ts (by rw [hdepth]; exact h)
    rw [hdepth] at ht
    have hmax : (Expr.chain e minus t).depth = max e.depth t.depth := rfl
    simp only [Expr.tokens, List.append_assoc, List.cons_append]
    rw [e.pushAll_tokens outer _ h, pushAll_cons hread, ht]
    split
    · split
      · rw [if_pos (by omega)]
        rfl
      · rw [if_neg (by omega)]
    · rw [if_neg (by omega)]

theorem Term.pushAll_tokens (t : Term) (outer : List OpenGroup) (sum : Option (Expr × Bool))
    (ts : List Token) (h : depth ⟨outer, ⟨sum, none, []⟩, none⟩ ≤ nesting) :
    pushAll nesting ⟨outer, ⟨sum, none, []⟩, none⟩ (t.tokens ++ ts) =
      if depth ⟨outer, ⟨sum, none, []⟩, none⟩ + t.depth ≤ nesting then
        pushAll nesting (t.read outer sum) ts
      else none :=
  match t with
  | .single f => f.pushAll_tokens outer ⟨sum, none, []⟩ ts h
  | .chain t op f => by
    have hdepth : depth ⟨outer, ⟨sum, some (t, op), []⟩, none⟩ =
        depth ⟨outer, ⟨sum, none, []⟩, none⟩ := rfl
    have hread : push nesting (t.read outer sum) op.token =
        some ⟨outer, ⟨sum, some (t, op), []⟩, none⟩ :=
      (push_product ..).trans (by rw [Term.closeTerm_read])
    have hf := f.pushAll_tokens outer ⟨sum, some (t, op), []⟩ ts (by rw [hdepth]; exact h)
    rw [hdepth] at hf
    have hmax : (Term.chain t op f).depth = max t.depth f.depth := rfl
    simp only [Term.tokens, List.append_assoc, List.cons_append]
    rw [t.pushAll_tokens outer sum _ h, pushAll_cons hread, hf]
    split
    · split
      · rw [if_pos (by omega)]
        rfl
      · rw [if_neg (by omega)]
    · rw [if_neg (by omega)]

theorem Factor.pushAll_tokens (f : Factor) (outer : List OpenGroup) (g : OpenGroup)
    (ts : List Token) (h : depth ⟨outer, g, none⟩ ≤ nesting) :
    pushAll nesting ⟨outer, g, none⟩ (f.tokens ++ ts) =
      if depth ⟨outer, g, none⟩ + f.depth ≤ nesting then pushAll nesting (f.read outer g) ts
      else none :=
  match f with
  | .signed minus f => by
    have hdepth := depth_sign outer g minus none none
    have hsucc : (Factor.signed minus f).depth = f.depth + 1 := rfl
    simp only [Factor.tokens, List.cons_append, pushAll, push_signToken]
    by_cases hd : depth ⟨outer, g, none⟩ + 1 ≤ nesting
    · have hf := f.pushAll_tokens outer { g with signs := minus :: g.signs } ts (by omega)
      rw [checkDepth_of_le (by omega), Option.bind_some, hf, hdepth]
      split
      · rw [if_pos (by omega)]
        rfl
      · rw [if_neg (by omega)]
    · rw [checkDepth_of_lt (by omega), Option.bind_none, if_neg (by omega)]
  | .plain x percents => by
    simp only [Factor.tokens, List.append_assoc]
    rw [x.pushAll_tokens outer g _ h, pushAll_percents, Nat.zero_add]
    rfl

theorem Primary.pushAll_tokens (x : Primary) (outer : List OpenGroup) (g : OpenGroup)
    (ts : List Token) (h : depth ⟨outer, g, none⟩ ≤ nesting) :
    pushAll nesting ⟨outer, g, none⟩ (x.tokens ++ ts) =
      if depth ⟨outer, g, none⟩ + x.depth ≤ nesting then pushAll nesting ⟨outer, g, some (x, 0)⟩ ts
      else none :=
  match x with
  | .number text => (if_pos (show depth ⟨outer, g, none⟩ + 0 ≤ nesting from h)).symm
  | .group e => by
    have hdepth := depth_group outer g none none
    have hopen : push nesting ⟨outer, g, none⟩ .opening =
        checkDepth nesting ⟨g :: outer, .empty, none⟩ := rfl
    have hclose : push nesting (e.read (g :: outer)) .closing =
        some ⟨outer, g, some (.group e, 0)⟩ :=
      congrArg (fun e => some (Reading.mk outer g (some (.group e, 0)))) e.closeExpr_read
    have hgroup : (Primary.group e).depth = e.depth + 3 := rfl
    simp only [Primary.tokens, List.cons_append, List.append_assoc, List.nil_append, pushAll,
      hopen]
    by_cases hd : depth ⟨outer, g, none⟩ + 3 ≤ nesting
    · have he := e.pushAll_tokens (g :: outer) (.closing :: ts) (by omega)
      rw [checkDepth_of_le (by omega), Option.bind_some, he, hdepth, pushAll_cons hclose]
      split
      · rw [if_pos (by omega)]
      · rw [if_neg (by omega)]
    · rw [checkDepth_of_lt (by omega), Option.bind_none, if_neg (by omega)]

end

theorem Expr.finish_read (e : Expr) : (e.read []).finish = some e :=
  congrArg some e.closeExpr_read

theorem Expr.pushAll_start (nesting : Nat) (e : Expr) :
    Reading.start.pushAll nesting e.tokens =
      if e.depth ≤ nesting then some (e.read []) else none := by
  have h : Reading.start.pushAll nesting (e.tokens ++ []) =
      if Reading.start.depth + e.depth ≤ nesting then (e.read []).pushAll nesting [] else none :=
    e.pushAll_tokens [] [] (Nat.zero_le nesting)
  rw [List.append_nil, show Reading.start.depth = 0 from rfl, Nat.zero_add] at h
  exact h

/-- Tokens are the tokens of at most one tree. -/
theorem Expr.tokens_injective {e e' : Expr} (h : e.tokens = e'.tokens) : e = e' := by
  have he := e.pushAll_start (max e.depth e'.depth)
  have he' := e'.pushAll_start (max e.depth e'.depth)
  rw [if_pos (by omega)] at he he'
  rw [h, he'] at he
  have hfinish := congrArg Reading.finish (Option.some.inj he)
  rw [finish_read, finish_read] at hfinish
  exact (Option.some.inj hfinish).symm

end PocketCalculator
