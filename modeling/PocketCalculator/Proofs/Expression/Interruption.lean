import PocketCalculator.Proofs.Expression.Balance
import PocketCalculator.Proofs.Expression.Bounds
import PocketCalculator.Proofs.Expression.Groups

/-!
# Faults of parentheses

A text whose parentheses are not balanced is refused for that. So is one with balanced parentheses
in which a number or a group follows an expression inside a group, where outside of all groups the
same is a fault of a number. Nothing else is a fault of parentheses (`evaluate_parentheses_iff`).
-/

namespace PocketCalculator

/-! ### Faults of calculations -/

/-- The families of faults that a calculation has. -/
def arithmeticFamilies : List Family := [.division, .modulus, .range]

/-- A value, or a fault of the calculation. -/
def Calculates {α : Type} (x : Except Failure α) : Prop :=
  Ensures x (fun _ => True) fun failure => failure.toFault.family ∈ arithmeticFamilies

section Calculates

variable {α β : Type}

theorem calculates_ok (a : α) : Calculates (.ok a : Except Failure α) := trivial

theorem Calculates.bind {x : Except Failure α} {f : α → Except Failure β} (hx : Calculates x)
    (hf : ∀ a, Calculates (f a)) : Calculates (x >>= f) :=
  Ensures.bind hx fun a _ => hf a

theorem Calculates.map {x : Except Failure α} (hx : Calculates x) (f : α → β) :
    Calculates (f <$> x) :=
  Ensures.map hx fun _ _ => trivial

theorem calculates_settle (result : Except Signal Extended) : Calculates (settle result) := by
  have hrange : Fault.outOfRange.family ∈ arithmeticFamilies := by decide
  cases result with
  | error s => exact hrange
  | ok x =>
    refine Ensures.intro (fun _ _ => trivial) fun e he => ?_
    rw [outOfRange_of_settle he]
    exact hrange

theorem calculates_requireNonzero (b : Extended) {fault : Fault}
    (h : fault.family ∈ arithmeticFamilies) : Calculates (requireNonzero b fault) := by
  unfold requireNonzero
  split
  · exact h
  · trivial
  · show Fault.outOfRange.family ∈ arithmeticFamilies
    decide

theorem calculates_apply (op : Operator) (a b : Extended) : Calculates (op.apply a b) := by
  cases op with
  | add => exact calculates_settle _
  | sub => exact calculates_settle _
  | mul => exact calculates_settle _
  | div => exact (calculates_requireNonzero b (by decide)).bind fun _ => calculates_settle _
  | rem => exact (calculates_requireNonzero b (by decide)).bind fun _ => calculates_settle _

theorem calculates_negated (x : Extended) : Calculates (negated x) := by
  unfold negated
  cases calculator.negate x with
  | ok y => trivial
  | error s =>
    show Fault.outOfRange.family ∈ arithmeticFamilies
    decide

theorem Operand.calculates_withPercent (x : Operand) (whole : Option Extended) :
    Calculates (x.withPercent whole) := by
  unfold withPercent
  split
  · exact Calculates.bind (calculates_settle _) fun _ => trivial
  · exact Calculates.bind (calculates_settle _) fun _ => trivial

theorem Group.calculates_signed (g : Group) (x : Extended) : Calculates (g.signed x) := by
  unfold Group.signed
  induction g.signs generalizing x with
  | nil => trivial
  | cons minus signs ih =>
    rw [List.foldlM_cons]
    refine Calculates.bind ?_ ih
    split
    · exact calculates_negated x
    · trivial

theorem Group.calculates_closeProduct (g : Group) (x : Extended) :
    Calculates (g.closeProduct x) := by
  refine (g.calculates_signed x).bind fun y => ?_
  cases g.product with
  | none => trivial
  | some p => exact (calculates_apply p.op p.left y).map _

theorem Group.calculates_closeSum (g : Group) (x : Extended) : Calculates (g.closeSum x) := by
  refine (g.calculates_closeProduct x).bind fun y => ?_
  cases g.sum with
  | none => trivial
  | some s => exact (calculates_apply _ s.left y).map _

end Calculates

/-! ### Faults of one token -/

/-- A failure that is a fault of parentheses. -/
def Failure.IsUnbalanced (failure : Failure) : Prop := failure.toFault.family = .parentheses

theorem Calculates.not_isUnbalanced {α : Type} {x : Except Failure α} {failure : Failure}
    (hx : Calculates x) (h : x = .error failure) : ¬ failure.IsUnbalanced := by
  intro hunbalanced
  have hfamily := Ensures.of_error hx h
  rw [Failure.IsUnbalanced] at hunbalanced
  rw [hunbalanced] at hfamily
  exact absurd hfamily (by decide)

namespace Progress

variable {nesting : Nat} {p q : Progress} {x : Operand} {t : Token} {failure : Failure}

/-- A number or a group begins after an expression that has a value and that a parenthesis before it
has opened. -/
structure Interrupts (p : Progress) (t : Token) (x : Operand) : Prop where
  operand : p.operand = some x
  inside : p.outer ≠ []
  begins : t.kind = .number ∨ t.kind = .opening
  closes : ∃ v, p.group.closeSum x.value = .ok v

theorem not_isUnbalanced_of_checkDepth (h : p.checkDepth nesting = .error failure) :
    ¬ failure.IsUnbalanced := by
  rcases p.checkDepth_cases nesting with hp | hp
  · rw [hp] at h
    cases h
  · rw [hp] at h
    cases h
    intro hunbalanced
    cases hunbalanced

theorem not_isUnbalanced_of_readOperand (h : p.readOperand nesting t = .error failure) :
    ¬ failure.IsUnbalanced := by
  unfold readOperand at h
  split at h
  · split at h
    · cases h
    · cases h
      exact fun h => by cases h
  · exact not_isUnbalanced_of_checkDepth h
  · split at h
    · cases h
      exact fun h => by cases h
    · cases h
      exact fun h => by cases h
  · split at h
    · exact not_isUnbalanced_of_checkDepth h
    · exact not_isUnbalanced_of_checkDepth h
    · cases h
      exact fun h => by cases h
  · cases h
    exact fun h => by cases h

theorem not_isUnbalanced_of_readOperator {op : Operator}
    (h : p.readOperator x op = .error failure) : ¬ failure.IsUnbalanced := by
  have hsum := p.group.calculates_closeSum x.value
  have hproduct := p.group.calculates_closeProduct x.value
  cases op with
  | add => exact (hsum.bind fun _ => calculates_ok _).not_isUnbalanced h
  | sub => exact (hsum.bind fun _ => calculates_ok _).not_isUnbalanced h
  | mul => exact (hproduct.bind fun _ => calculates_ok _).not_isUnbalanced h
  | div => exact (hproduct.bind fun _ => calculates_ok _).not_isUnbalanced h
  | rem => exact (hproduct.bind fun _ => calculates_ok _).not_isUnbalanced h

theorem misplaced_of_nil (h : p.outer = []) : p.misplaced t = .unexpected t.text := by
  simp [misplaced, h]

theorem misplaced_of_ne_nil (h : p.outer ≠ []) : p.misplaced t = .unbalanced := by
  simp [misplaced, h]

theorem interrupts_of_misplaced (hx : p.operand = some x)
    (ht : t.kind = .number ∨ t.kind = .opening)
    (h : (do
      let _ ← p.group.closeSum x.value
      .error (.fault (p.misplaced t)) : Except Failure Progress) = .error failure)
    (hf : failure.IsUnbalanced) : p.Interrupts t x := by
  rcases bind_eq_error.mp h with hclose | ⟨v, hv, h⟩
  · exact absurd hf ((p.group.calculates_closeSum x.value).not_isUnbalanced hclose)
  · cases h
    refine ⟨hx, fun houter => ?_, ht, v, hv⟩
    rw [misplaced_of_nil houter] at hf
    cases hf

theorem interrupts_of_readAfter (hx : p.operand = some x)
    (ht : t.kind = .operator → (Operator.ofText? t.text).isSome)
    (h : p.readAfter x t = .error failure) (hf : failure.IsUnbalanced) : p.Interrupts t x := by
  unfold readAfter at h
  split at h
  · exact absurd hf
      (((x.calculates_withPercent p.group.whole).bind fun _ => calculates_ok _).not_isUnbalanced h)
  · rcases bind_eq_error.mp h with hclose | ⟨v, _, h⟩
    · exact absurd hf ((p.group.calculates_closeSum x.value).not_isUnbalanced hclose)
    · split at h
      · next houter =>
        rw [misplaced_of_nil houter] at h
        cases h
        cases hf
      · cases h
  · next hkind =>
    split at h
    · exact absurd hf (not_isUnbalanced_of_readOperator h)
    · next hop =>
      rw [hop] at ht
      exact absurd (ht hkind) (by simp)
  · next hpercent hclosing hoperator =>
    -- What is left are the tokens that an operand begins with.
    refine interrupts_of_misplaced hx ?_ h hf
    cases hkind : t.kind with
    | number => exact .inl rfl
    | opening => exact .inr rfl
    | percent => exact absurd hkind hpercent
    | closing => exact absurd hkind hclosing
    | operator => exact absurd hkind hoperator

theorem interrupts_of_read (ht : t.kind = .operator → (Operator.ofText? t.text).isSome)
    (h : p.read nesting t = .error failure) (hf : failure.IsUnbalanced) :
    ∃ x, p.Interrupts t x := by
  unfold read at h
  split at h
  · exact absurd hf (not_isUnbalanced_of_readOperand h)
  · next x hx => exact ⟨x, interrupts_of_readAfter hx ht h hf⟩

theorem Interrupts.read (nesting : Nat) (h : p.Interrupts t x) :
    p.read nesting t = .error (.fault .unbalanced) := by
  obtain ⟨hx, hinside, hbegins, v, hv⟩ := h
  have hstop : p.readAfter x t = (do
      let _ ← p.group.closeSum x.value
      .error (.fault (p.misplaced t))) := by
    unfold readAfter
    rcases hbegins with hkind | hkind
    · simp only [hkind]
    · simp only [hkind]
  simp only [Progress.read, hx, hstop, hv, ok_bind, misplaced_of_ne_nil hinside]

/-! ### Faults of all tokens -/

theorem exists_of_readAll_error {ts : List Token} (h : p.readAll nesting ts = .error failure) :
    ∃ before t after q, ts = before ++ t :: after ∧ p.readAll nesting before = .ok q ∧
      q.read nesting t = .error failure := by
  induction ts generalizing p with
  | nil => cases h
  | cons t ts ih =>
    rcases bind_eq_error.mp h with hread | ⟨q, hq, h⟩
    · exact ⟨[], t, ts, p, rfl, rfl, hread⟩
    · obtain ⟨before, u, after, r, rfl, hr, hu⟩ := ih h
      exact ⟨t :: before, u, after, r, rfl, bind_eq_ok.mpr ⟨q, hq, hr⟩, hu⟩

theorem openAfter_of_readOperand (h : p.readOperand nesting t = .ok q) (ts : List Token) :
    openAfter p.outer.length (t :: ts) = openAfter q.outer.length ts := by
  unfold readOperand at h
  cases hkind : t.kind with
  | number =>
    simp only [hkind] at h
    split at h
    · cases h
      exact openAfter_cons (by simp [hkind]) (by simp [hkind])
    · cases h
  | opening =>
    simp only [hkind] at h
    rw [eq_of_checkDepth h]
    simp only [openAfter, hkind, List.length_cons]
  | closing =>
    simp only [hkind] at h
    split at h
    · cases h
    · cases h
  | operator =>
    simp only [hkind] at h
    have hsame : openAfter p.outer.length (t :: ts) = openAfter p.outer.length ts :=
      openAfter_cons (by simp [hkind]) (by simp [hkind])
    split at h
    · rw [eq_of_checkDepth h]
      exact hsame
    · rw [eq_of_checkDepth h]
      exact hsame
    · cases h
  | percent =>
    simp only [hkind] at h
    cases h

theorem outer_of_readOperator {op : Operator} (h : p.readOperator x op = .ok q) :
    q.outer = p.outer := by
  unfold readOperator at h
  split at h
  · obtain ⟨left, _, h⟩ := bind_eq_ok.mp h
    cases h
    rfl
  · obtain ⟨left, _, h⟩ := bind_eq_ok.mp h
    cases h
    rfl
  · obtain ⟨left, _, h⟩ := bind_eq_ok.mp h
    cases h
    rfl

theorem openAfter_of_readAfter (h : p.readAfter x t = .ok q) (ts : List Token) :
    openAfter p.outer.length (t :: ts) = openAfter q.outer.length ts := by
  unfold readAfter at h
  cases hkind : t.kind with
  | percent =>
    simp only [hkind] at h
    obtain ⟨y, _, h⟩ := bind_eq_ok.mp h
    cases h
    exact openAfter_cons (by simp [hkind]) (by simp [hkind])
  | closing =>
    simp only [hkind] at h
    obtain ⟨v, _, h⟩ := bind_eq_ok.mp h
    split at h
    · cases h
    · next g outer houter =>
      cases h
      simp only [openAfter, hkind, houter, List.length_cons]
  | operator =>
    simp only [hkind] at h
    split at h
    · rw [outer_of_readOperator h]
      exact openAfter_cons (by simp [hkind]) (by simp [hkind])
    · obtain ⟨v, _, h⟩ := bind_eq_ok.mp h
      cases h
  | number =>
    simp only [hkind] at h
    obtain ⟨v, _, h⟩ := bind_eq_ok.mp h
    cases h
  | opening =>
    simp only [hkind] at h
    obtain ⟨v, _, h⟩ := bind_eq_ok.mp h
    cases h

theorem openAfter_of_read (h : p.read nesting t = .ok q) (ts : List Token) :
    openAfter p.outer.length (t :: ts) = openAfter q.outer.length ts := by
  obtain ⟨outer, g, operand⟩ := p
  cases operand with
  | none => exact openAfter_of_readOperand h ts
  | some x => exact openAfter_of_readAfter h ts

theorem openAfter_of_readAll {ts : List Token} (h : p.readAll nesting ts = .ok q) :
    openAfter p.outer.length ts = some q.outer.length := by
  induction ts generalizing p with
  | nil =>
    cases h
    rfl
  | cons t ts ih =>
    obtain ⟨r, hr, h⟩ := bind_eq_ok.mp h
    rw [openAfter_of_read hr]
    exact ih h

theorem not_isUnbalanced_of_finish (houter : p.outer = []) (h : p.finish = .error failure) :
    ¬ failure.IsUnbalanced := by
  unfold finish at h
  split at h
  · cases h
    exact fun h => by cases h
  · next x hx =>
    simp only [houter, List.isEmpty_nil, if_true] at h
    exact ((p.group.calculates_closeSum x.value).bind calculates_ok).not_isUnbalanced h

end Progress

/-- Inside a group, a number or a group begins directly after an expression that has a value, and
all tokens before it can be read, nested at most this deeply. -/
def Interrupted (nesting : Nat) (ts : List Token) : Prop :=
  ∃ (before : List Token) (e : Expr) (t : Token) (after : List Token),
    ts = before ++ .opening :: (e.tokens ++ t :: after) ∧
      (t.kind = .number ∨ t.kind = .opening) ∧
      (∃ p, Progress.start.readAll nesting (before ++ .opening :: e.tokens) = .ok p) ∧
      ∃ v, e.value .decimals = .ok v

namespace Reading

theorem tokens_inside (g' : OpenGroup) (outer : List OpenGroup) (g : OpenGroup) (x : Primary)
    (percents : Nat) :
    tokens ⟨g' :: outer, g, some (x, percents)⟩ =
      (outerTokens outer ++ g'.tokens) ++ .opening :: (g.closeExpr x percents).tokens := by
  simp only [tokens, outerTokens, OpenGroup.tokens_closeExpr, List.append_assoc,
    List.cons_append, List.nil_append]

theorem exists_of_meaning_inside {s : Reading} {p : Progress} {x : Operand} {t : Token}
    (hs : s.meaning = .ok p) (h : p.Interrupts t x) :
    ∃ before e, s.tokens = before ++ .opening :: Expr.tokens e ∧
      ∃ v, e.value .decimals = .ok v := by
  obtain ⟨hoperand, hinside, _, v, hv⟩ := h
  obtain ⟨outer, g, operand⟩ := s
  obtain ⟨groups, houter, hs⟩ := bind_eq_ok.mp hs
  obtain ⟨group, hgroup, hs⟩ := bind_eq_ok.mp hs
  cases operand with
  | none =>
    cases hs
    cases hoperand
  | some operand =>
    obtain ⟨y, hy, hs⟩ := bind_eq_ok.mp hs
    cases hs
    cases hoperand
    cases outer with
    | nil =>
      cases houter
      exact absurd rfl hinside
    | cons g' outer =>
      refine ⟨_, _, tokens_inside g' outer g operand.1 operand.2, v, ?_⟩
      simp only [OpenGroup.value_closeExpr, hgroup, hy, ok_bind]
      exact hv

end Reading

theorem interrupted_of_interrupts {nesting : Nat} {before after : List Token} {t : Token}
    {p : Progress} {x : Operand} (hspelled : ∀ u ∈ before, u.IsSpelled)
    (hread : Progress.start.readAll nesting before = .ok p) (h : p.Interrupts t x) :
    Interrupted nesting (before ++ t :: after) := by
  obtain ⟨s, hs⟩ := Reading.exists_of_readAll (r := .start) rfl hread
  have hmeaning : s.meaning = .ok p := (Reading.meaning_of_pushAll hs).trans hread
  obtain ⟨start, e, htokens, hvalue⟩ := Reading.exists_of_meaning_inside hmeaning h
  have hbefore : before = start ++ .opening :: e.tokens := by
    rw [← htokens, Reading.tokens_of_pushAll hspelled hs]
    rfl
  refine ⟨start, e, t, after, ?_, h.begins, ⟨p, hbefore ▸ hread⟩, hvalue⟩
  rw [hbefore]
  simp only [List.append_assoc, List.cons_append]

theorem Reading.pushAll_append (nesting : Nat) (r : Reading) (ts us : List Token) :
    r.pushAll nesting (ts ++ us) = (r.pushAll nesting ts).bind (pushAll nesting · us) := by
  induction ts generalizing r with
  | nil => rfl
  | cons t ts ih =>
    simp only [List.cons_append, pushAll, Option.bind_assoc, ih]

theorem Reading.pushAll_inside {nesting : Nat} {before : List Token} {e : Expr} {s : Reading}
    (h : start.pushAll nesting (before ++ .opening :: e.tokens) = some s) :
    ∃ g outer, s = e.read (g :: outer) := by
  rw [pushAll_append] at h
  obtain ⟨r, _, h⟩ := Option.bind_eq_some_iff.mp h
  obtain ⟨r', hopening, h⟩ := Option.bind_eq_some_iff.mp h
  obtain ⟨outer, g, operand⟩ := r
  cases operand with
  | some operand => cases hopening
  | none =>
    obtain ⟨hdepth, rfl⟩ := checkDepth_eq_some.mp hopening
    have htokens := e.pushAll_tokens (g :: outer) [] hdepth
    rw [List.append_nil] at htokens
    rw [htokens] at h
    split at h
    · cases h
      exact ⟨g, outer, rfl⟩
    · cases h

theorem exists_interrupts {nesting : Nat} {before : List Token} {e : Expr} {t : Token}
    {p : Progress} {v : Extended} (hkind : t.kind = .number ∨ t.kind = .opening)
    (hread : Progress.start.readAll nesting (before ++ .opening :: e.tokens) = .ok p)
    (hvalue : e.value .decimals = .ok v) : ∃ x, p.Interrupts t x := by
  obtain ⟨s, hs⟩ := Reading.exists_of_readAll (r := .start) rfl hread
  have hmeaning : s.meaning = .ok p := (Reading.meaning_of_pushAll hs).trans hread
  obtain ⟨g, outer, rfl⟩ := Reading.pushAll_inside hs
  obtain ⟨groups, houter, hp⟩ := bind_eq_ok.mp hmeaning
  obtain ⟨group, hgroup, hp⟩ := bind_eq_ok.mp hp
  obtain ⟨y, hy, hp⟩ := bind_eq_ok.mp hp
  cases hp
  -- The evaluator has the values of the tree that has been read, so closing it gives the tree's.
  have hclose : group.closeSum y.value = .ok v := by
    have hread := OpenGroup.value_closeExpr (e.read (g :: outer)).group e.last.last.primary
      e.last.last.percents
    rw [hgroup, ok_bind, hy, ok_bind] at hread
    rw [← hread, ← hvalue]
    exact congrArg (·.value .decimals) e.closeExpr_read
  refine ⟨y, rfl, fun hnil => ?_, hkind, v, hclose⟩
  obtain ⟨gs, _, houter⟩ := bind_eq_ok.mp houter
  obtain ⟨group', _, houter⟩ := bind_eq_ok.mp houter
  cases houter
  cases hnil

/-- Tokens have a fault of parentheses if they are interrupted, and if theirs are balanced, only
then. -/
theorem compute_isUnbalanced_iff {nesting : Nat} {ts : List Token}
    (hspelled : ∀ t ∈ ts, t.IsSpelled)
    (hoperators : ∀ t ∈ ts, t.kind = .operator → (Operator.ofText? t.text).isSome)
    (hbalanced : openAfter 0 ts = some 0) :
    (∃ failure, compute nesting ts = .error failure ∧ failure.IsUnbalanced) ↔
      Interrupted nesting ts := by
  constructor
  · rintro ⟨failure, h, hf⟩
    rw [compute_eq] at h
    rcases bind_eq_error.mp h with hread | ⟨p, hp, hfinish⟩
    · obtain ⟨before, t, after, p, rfl, hp, hread⟩ := Progress.exists_of_readAll_error hread
      obtain ⟨x, hx⟩ := Progress.interrupts_of_read (hoperators t (by simp)) hread hf
      exact interrupted_of_interrupts (fun u hu => hspelled u (by simp [hu])) hp hx
    · -- All groups that have been read are closed, so nothing is missing at the end.
      have hopen := Progress.openAfter_of_readAll hp
      have houter : p.outer = [] := by
        rw [show Progress.start.outer.length = 0 from rfl, hbalanced] at hopen
        exact List.length_eq_zero_iff.mp (Option.some.inj hopen).symm
      exact absurd hf (Progress.not_isUnbalanced_of_finish houter hfinish)
  · rintro ⟨before, e, t, after, rfl, hkind, ⟨p, hp⟩, v, hv⟩
    obtain ⟨x, hx⟩ := exists_interrupts hkind hp hv
    refine ⟨.fault .unbalanced, ?_, rfl⟩
    have hsplit : before ++ .opening :: (e.tokens ++ t :: after) =
        (before ++ .opening :: e.tokens) ++ t :: after := by
      simp only [List.append_assoc, List.cons_append]
    rw [compute_eq, hsplit, Progress.readAll_append, hp, ok_bind, Progress.readAll, hx.read nesting]
    rfl

/-! ### Faults of texts -/

theorem isSome_of_takeToken {c : Char} {rest tail : List Char} {t : Token}
    (h : takeToken c rest = .ok (t, tail)) (hkind : t.kind = .operator) :
    (Operator.ofText? t.text).isSome := by
  rcases takeToken_cases h with ⟨hc, rfl, _⟩ | ⟨_, rfl, _⟩ | ⟨_, rfl, _⟩ | ⟨_, rfl, _⟩ |
    ⟨_, rfl, _⟩ | ⟨rfl, _⟩
  · simp only [List.mem_cons, List.not_mem_nil, or_false] at hc
    rcases hc with rfl | rfl | rfl | rfl <;> rfl
  · cases hkind
  · cases hkind
  · cases hkind
  · rfl
  · cases hkind

theorem isSome_of_tokenize {limit : Nat} {text : List Char} {ts : List Token}
    (h : tokenize limit text = .ok ts) :
    ∀ t ∈ resolvePercents ts, t.kind = .operator → (Operator.ofText? t.text).isSome :=
  forall_mem_resolvePercents (fun _ => rfl)
    (forall_mem_scan (fun _ _ _ _ _ => isSome_of_takeToken) (Nat.le_refl _) (scan_of_tokenize h).2)

theorem evaluate_of_not_balanced {limits : Limits} {text : List Char} {ts : List Token}
    (h : tokenize limits.length text = .ok ts) (hbalanced : ¬ Balanced text) :
    evaluate limits text = .error .unbalanced := by
  rw [← balanced_iff h] at hbalanced
  rw [evaluate, h, ok_bind, checkParentheses, if_neg hbalanced, error_bind]

theorem evaluate_of_balanced {limits : Limits} {text : List Char} {ts : List Token}
    (h : tokenize limits.length text = .ok ts) (hbalanced : Balanced text) :
    evaluate limits text = (do
      let value ← (compute limits.nesting (resolvePercents ts)).mapError Failure.toFault
      inRange value) := by
  rw [← balanced_iff h] at hbalanced
  rw [evaluate, h, ok_bind, checkParentheses, if_pos hbalanced, ok_bind]

theorem evaluate_of_balanced_iff {limits : Limits} {text : List Char} {ts : List Token}
    (h : tokenize limits.length text = .ok ts) (hbalanced : Balanced text) :
    (∃ fault, evaluate limits text = .error fault ∧ fault.family = .parentheses) ↔
      Interrupted limits.nesting (resolvePercents ts) := by
  have hopen : openAfter 0 (resolvePercents ts) = some 0 := by
    rw [openAfter_resolvePercents]
    exact beq_iff_eq.mp ((balanced_iff h).mpr hbalanced)
  rw [← compute_isUnbalanced_iff (isSpelled_of_tokenize h) (isSome_of_tokenize h) hopen,
    evaluate_of_balanced h hbalanced]
  cases hcompute : compute limits.nesting (resolvePercents ts) with
  | error failure =>
    constructor
    · rintro ⟨fault, hfault, hfamily⟩
      cases hfault
      exact ⟨failure, rfl, hfamily⟩
    · rintro ⟨failure', hfailure, hunbalanced⟩
      cases hfailure
      exact ⟨failure.toFault, rfl, hunbalanced⟩
  | ok v =>
    refine iff_of_false ?_ ?_
    · rintro ⟨fault, hfault, hfamily⟩
      rw [outOfRange_of_inRange hfault] at hfamily
      cases hfamily
    · rintro ⟨failure, hfailure, _⟩
      cases hfailure

/-- A text has a fault of parentheses if and only if they are not balanced or an expression in a
group is interrupted. Every other text with balanced parentheses that is no expression has a fault
of a number or of a calculation. -/
theorem evaluate_parentheses_iff {limits : Limits} {text : List Char} {ts : List Token}
    (h : tokenize limits.length text = .ok ts) :
    ((∃ fault, evaluate limits text = .error fault ∧ fault.family = .parentheses) ↔
      ¬ Balanced text ∨ Interrupted limits.nesting (resolvePercents ts)) ∧
    (Balanced text → ¬ Interrupted limits.nesting (resolvePercents ts) →
      (¬ ∃ e : Expr, e.tokens = resolvePercents ts) →
      ∃ fault, evaluate limits text = .error fault ∧
        (fault.family = .number ∨ fault.family ∈ arithmeticFamilies)) := by
  constructor
  · by_cases hbalanced : Balanced text
    · rw [evaluate_of_balanced_iff h hbalanced]
      simp [hbalanced]
    · exact iff_of_true ⟨.unbalanced, evaluate_of_not_balanced h hbalanced, rfl⟩ (.inl hbalanced)
  · intro hbalanced hinterrupted htree
    have hparentheses := mt (evaluate_of_balanced_iff h hbalanced).mp hinterrupted
    have hfamily := ensures_evaluate limits text
    cases hevaluate : evaluate limits text with
    | ok d =>
      rw [evaluate_of_balanced h hbalanced] at hevaluate
      obtain ⟨v, hv, _⟩ := bind_eq_ok.mp hevaluate
      obtain ⟨e, he, _⟩ := (compute_eq_ok_iff h v).mp (mapError_eq_ok.mp hv)
      exact absurd ⟨e, he⟩ htree
    | error fault =>
      refine ⟨fault, rfl, ?_⟩
      have hmem : fault.family ∈ expressionFamilies := hfamily.of_error hevaluate
      have hne : fault.family ≠ .parentheses := fun h => hparentheses ⟨fault, hevaluate, h⟩
      revert hmem hne
      cases fault.family <;> decide

/-- In the first text it is the group that is interrupted. The second one is not interrupted in a
group, so the number after the group is reported. -/
theorem evaluate_parentheses_iff_juxtaposed :
    Interrupted 900 [.number ['1'], .operator '+', .opening, .number ['2'], .opening,
      .number ['3'], .closing, .closing] ∧
    ¬ Interrupted 900 [.opening, .number ['2'], .closing, .number ['3']] := by
  have hinside : tokenize Limits.standard.length "1+(2(3))".toList =
      .ok [.number ['1'], .operator '+', .opening, .number ['2'], .opening, .number ['3'],
        .closing, .closing] :=
    toOption_eq_some.mp (by decide +kernel)
  have houtside : tokenize Limits.standard.length "(2)3".toList =
      .ok [.opening, .number ['2'], .closing, .number ['3']] :=
    toOption_eq_some.mp (by decide +kernel)
  constructor
  · refine ((evaluate_parentheses_iff hinside).1.mp ⟨.unbalanced, ?_, rfl⟩).resolve_left ?_
    · decide +kernel
    · decide
  · intro hinterrupted
    obtain ⟨fault, hfault, hfamily⟩ := (evaluate_parentheses_iff houtside).1.mpr (.inr hinterrupted)
    have hevaluate : evaluate .standard "(2)3".toList = .error (.unexpected ['3']) := by
      decide +kernel
    rw [hevaluate] at hfault
    cases hfault
    cases hfamily

/-- The parentheses are balanced and yet reported. Without them the number is. -/
theorem balanced_parentheses_reported :
    tokenize Limits.standard.length "(2 3)".toList =
      .ok [.opening, .number ['2'], .number ['3'], .closing] ∧
    Balanced "(2 3)".toList ∧
    evaluate .standard "(2 3)".toList = .error .unbalanced ∧
    evaluate .standard "2 3".toList = .error (.unexpected ['3']) := by
  refine ⟨toOption_eq_some.mp ?_, ?_, ?_, ?_⟩
  · decide +kernel
  · decide
  · decide +kernel
  · decide +kernel

end PocketCalculator
