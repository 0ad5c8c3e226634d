import PocketCalculator.Proofs.Expression.Evaluation
import PocketCalculator.Proofs.Expression.Scan

/-!
# Groups stand for their values

Reading an expression inside other groups is reading it alone, with those groups below it
(`readAll_within`). So nothing of a group is seen from the outside but its value: of two expressions
with the same value either may be written in the parentheses, in every text.
-/

namespace PocketCalculator

/-! ### Values before they are brought into range -/

/-- The value of an expression, not yet brought into range. -/
def rawValue (limits : Limits) (text : List Char) : Except Fault Extended := do
  let tokens ← tokenize limits.length text
  checkParentheses tokens
  (compute limits.nesting (resolvePercents tokens)).mapError Failure.toFault

/-- What the tokens of an expression evaluate to. -/
def evaluateTokens (nesting : Nat) (tokens : List Token) : Except Fault Decimal := do
  checkParentheses tokens
  let value ← (compute nesting (resolvePercents tokens)).mapError Failure.toFault
  inRange value

section Evaluate

variable {limits : Limits} {text : List Char}

theorem evaluate_eq_tokenize (limits : Limits) (text : List Char) :
    evaluate limits text = (do
      evaluateTokens limits.nesting (← tokenize limits.length text)) := rfl

theorem tokens_of_rawValue {v : Extended} (h : rawValue limits text = .ok v) :
    ∃ ts, tokenize limits.length text = .ok ts ∧ openAfter 0 ts = some 0 ∧
      compute limits.nesting (resolvePercents ts) = .ok v := by
  obtain ⟨ts, hts, h⟩ := bind_eq_ok.mp h
  obtain ⟨_, hparentheses, h⟩ := bind_eq_ok.mp h
  refine ⟨ts, hts, ?_, mapError_eq_ok.mp h⟩
  unfold checkParentheses at hparentheses
  split at hparentheses
  · next hbalanced => exact beq_iff_eq.mp hbalanced
  · cases hparentheses

theorem evaluate_of_rawValue {v : Extended} (h : rawValue limits text = .ok v) :
    evaluate limits text = inRange v := by
  have hraw : evaluate limits text = (do inRange (← rawValue limits text)) := by
    simp only [evaluate, rawValue, bind_assoc]
  rw [hraw, h, ok_bind]

/-- A text that is neither empty nor too long is evaluated as its tokens are. -/
theorem evaluate_eq_scan (hblank : trim text ≠ []) (h : evaluate limits text ≠ .error .tooLong) :
    evaluate limits text = (do
      evaluateTokens limits.nesting (← scan (text.map plainSign))) := by
  rw [evaluate_eq_tokenize, tokenize_eq, if_neg hblank] at h ⊢
  split at h
  · exact absurd rfl h
  · next hlength => rw [if_neg hlength]

end Evaluate

/-! ### Reading inside other groups -/

namespace Progress

variable {nesting : Nat} {p q : Progress} {t : Token}

/-- The same progress inside more groups. -/
def within (p : Progress) (outer : List Group) : Progress := { p with outer := p.outer ++ outer }

theorem checkDepth_cases (nesting : Nat) (p : Progress) :
    p.checkDepth nesting = .ok p ∨ p.checkDepth nesting = .error (.fault .tooComplex) := by
  unfold checkDepth
  split
  · exact .inr rfl
  · exact .inl rfl

theorem eq_of_checkDepth (h : p.checkDepth nesting = .ok q) : q = p := by
  rcases p.checkDepth_cases nesting with hp | hp
  · rw [hp] at h
    cases h
    rfl
  · rw [hp] at h
    cases h

theorem checkDepth_within (outer : List Group) (h : p.checkDepth nesting = .ok q) :
    (p.within outer).checkDepth nesting = .ok (q.within outer) ∨
      (p.within outer).checkDepth nesting = .error (.fault .tooComplex) := by
  rw [eq_of_checkDepth h]
  exact (p.within outer).checkDepth_cases nesting

theorem readOperand_within (outer : List Group) (h : p.readOperand nesting t = .ok q) :
    (p.within outer).readOperand nesting t = .ok (q.within outer) ∨
      (p.within outer).readOperand nesting t = .error (.fault .tooComplex) := by
  unfold readOperand at h ⊢
  cases hkind : t.kind with
  | number =>
    simp only [hkind] at h ⊢
    split at h
    · cases h
      exact .inl rfl
    · cases h
  | opening =>
    simp only [hkind] at h
    exact checkDepth_within outer h
  | closing =>
    simp only [hkind] at h
    split at h
    · cases h
    · cases h
  | operator =>
    simp only [hkind] at h ⊢
    split at h
    · exact checkDepth_within outer h
    · exact checkDepth_within outer h
    · cases h
  | percent =>
    simp only [hkind] at h
    cases h

theorem readOperator_within (outer : List Group) {x : Operand} {op : Operator}
    (h : p.readOperator x op = .ok q) :
    (p.within outer).readOperator x op = .ok (q.within outer) := by
  unfold readOperator at h ⊢
  split at h
  · obtain ⟨left, hleft, h⟩ := bind_eq_ok.mp h
    cases h
    exact bind_eq_ok.mpr ⟨left, hleft, rfl⟩
  · obtain ⟨left, hleft, h⟩ := bind_eq_ok.mp h
    cases h
    exact bind_eq_ok.mpr ⟨left, hleft, rfl⟩
  · obtain ⟨left, hleft, h⟩ := bind_eq_ok.mp h
    cases h
    exact bind_eq_ok.mpr ⟨left, hleft, rfl⟩

theorem readAfter_within (outer : List Group) {x : Operand} (h : p.readAfter x t = .ok q) :
    (p.within outer).readAfter x t = .ok (q.within outer) := by
  unfold readAfter at h ⊢
  cases hkind : t.kind with
  | percent =>
    simp only [hkind] at h ⊢
    obtain ⟨y, hy, h⟩ := bind_eq_ok.mp h
    cases h
    exact bind_eq_ok.mpr ⟨y, hy, rfl⟩
  | closing =>
    simp only [hkind] at h ⊢
    obtain ⟨value, hvalue, h⟩ := bind_eq_ok.mp h
    refine bind_eq_ok.mpr ⟨value, hvalue, ?_⟩
    split at h
    · cases h
    · next g groups houter =>
      cases h
      simp only [within, houter, List.cons_append]
  | operator =>
    simp only [hkind] at h ⊢
    split at h
    · next op hop => exact readOperator_within outer h
    · obtain ⟨value, _, h⟩ := bind_eq_ok.mp h
      cases h
  | number =>
    simp only [hkind] at h
    obtain ⟨value, _, h⟩ := bind_eq_ok.mp h
    cases h
  | opening =>
    simp only [hkind] at h
    obtain ⟨value, _, h⟩ := bind_eq_ok.mp h
    cases h

/-- A token that is read is read in the same way inside more groups, if these do not make the
nesting too deep. -/
theorem read_within (outer : List Group) (h : p.read nesting t = .ok q) :
    (p.within outer).read nesting t = .ok (q.within outer) ∨
      (p.within outer).read nesting t = .error (.fault .tooComplex) := by
  obtain ⟨groups, g, operand⟩ := p
  cases operand with
  | none => exact readOperand_within outer h
  | some x => exact .inl (readAfter_within outer h)

theorem readAll_within (outer : List Group) {ts : List Token} (h : p.readAll nesting ts = .ok q) :
    (p.within outer).readAll nesting ts = .ok (q.within outer) ∨
      (p.within outer).readAll nesting ts = .error (.fault .tooComplex) := by
  induction ts generalizing p with
  | nil =>
    cases h
    exact .inl rfl
  | cons t ts ih =>
    obtain ⟨p', hp', h⟩ := bind_eq_ok.mp h
    rcases read_within outer hp' with hread | hread
    · simp only [readAll, hread, ok_bind]
      exact ih h
    · right
      simp only [readAll, hread, error_bind]

/-- Reads a group by its value. -/
def readValue (p : Progress) (v : Extended) : Except Failure Progress :=
  match p.operand with
  | none => .ok { p with operand := some ⟨v, true⟩ }
  | some x => p.readAfter x .opening

theorem exists_of_compute_ok {ts : List Token} {v : Extended} (h : compute nesting ts = .ok v) :
    ∃ g x, start.readAll nesting ts = .ok ⟨[], g, some x⟩ ∧ g.closeSum x.value = .ok v := by
  rw [compute_eq] at h
  obtain ⟨⟨outer, g, operand⟩, hread, h⟩ := bind_eq_ok.mp h
  unfold finish at h
  cases operand with
  | none => cases h
  | some x =>
    obtain ⟨value, hvalue, h⟩ := bind_eq_ok.mp h
    cases outer with
    | nil =>
      cases h
      exact ⟨g, x, hread, hvalue⟩
    | cons g' outer => cases h

theorem readAll_group {ts : List Token} {v : Extended} (h : compute nesting ts = .ok v)
    (p : Progress) (us : List Token) :
    p.readAll nesting (.opening :: (ts ++ .closing :: us)) = (do
        let q ← p.readValue v
        q.readAll nesting us) ∨
      p.readAll nesting (.opening :: (ts ++ .closing :: us)) = .error (.fault .tooComplex) := by
  obtain ⟨outer, g, operand⟩ := p
  cases operand with
  | some x =>
    -- Nothing is read after the parenthesis, which is out of place.
    have hstop : readAfter ⟨outer, g, some x⟩ x .opening = (do
        let _ ← g.closeSum x.value
        .error (.fault (misplaced ⟨outer, g, some x⟩ .opening))) := rfl
    left
    simp only [readAll, read, readValue, hstop, bind_assoc, error_bind]
  | none =>
    obtain ⟨g', x, hread, hclose⟩ := exists_of_compute_ok h
    have hopening : read nesting ⟨outer, g, none⟩ .opening =
        checkDepth nesting ⟨g :: outer, .empty, none⟩ := rfl
    have hclosing : read nesting ⟨g :: outer, g', some x⟩ .closing =
        .ok ⟨outer, g, some ⟨v, true⟩⟩ := bind_eq_ok.mpr ⟨v, hclose, rfl⟩
    rw [readAll, hopening]
    rcases checkDepth_cases nesting ⟨g :: outer, .empty, none⟩ with hdepth | hdepth
    · rw [hdepth, ok_bind, readAll_append]
      rcases readAll_within (g :: outer) hread with hinner | hinner
      · left
        have hinner' : readAll nesting ⟨g :: outer, .empty, none⟩ ts =
            .ok ⟨g :: outer, g', some x⟩ := hinner
        rw [hinner', ok_bind, readAll, hclosing]
        rfl
      · right
        have hinner' : readAll nesting ⟨g :: outer, .empty, none⟩ ts =
            .error (.fault .tooComplex) := hinner
        rw [hinner', error_bind]
    · right
      rw [hdepth, error_bind]

end Progress

/-- A group is read by its value, if it is not nested too deeply. -/
theorem compute_group {nesting : Nat} {ts : List Token} {v : Extended}
    (h : compute nesting ts = .ok v) (before after : List Token) :
    compute nesting (before ++ .opening :: (ts ++ .closing :: after)) = (do
        let p ← Progress.start.readAll nesting before
        let q ← p.readValue v
        let r ← q.readAll nesting after
        r.finish) ∨
      compute nesting (before ++ .opening :: (ts ++ .closing :: after)) =
        .error (.fault .tooComplex) := by
  simp only [compute_eq, Progress.readAll_append, bind_assoc]
  cases Progress.start.readAll nesting before with
  | error e => exact .inl rfl
  | ok p =>
    simp only [ok_bind]
    rcases Progress.readAll_group h p after with hgroup | hgroup
    · left
      rw [hgroup, bind_assoc]
    · right
      rw [hgroup, error_bind]

/-! ### Percent signs and parentheses around a group -/

theorem startsDivisor_append_opening (ts us : List Token) :
    startsDivisor (ts ++ .opening :: us) = startsDivisor (ts ++ [.opening]) := by
  match ts with
  | [] => cases us <;> rfl
  | [t] => rfl
  | t :: t' :: ts => rfl

theorem startsDivisor_append_closing (ts us : List Token) :
    startsDivisor (ts ++ .closing :: us) = startsDivisor ts := by
  match ts with
  | [] => cases us <;> rfl
  | [t] => simp [startsDivisor, Token.closing]
  | t :: t' :: ts => rfl

/-- What is in a group does not change the percent signs before it. -/
theorem exists_resolvePercents_opening (ts : List Token) : ∃ before, ∀ us,
    resolvePercents (ts ++ .opening :: us) = before ++ .opening :: resolvePercents us := by
  induction ts with
  | nil => exact ⟨[], fun us => rfl⟩
  | cons t ts ih =>
    obtain ⟨before, hbefore⟩ := ih
    refine ⟨(if t.kind = .percent && startsDivisor (ts ++ [.opening]) then Token.modulus else t) ::
      before, fun us => ?_⟩
    rw [List.cons_append, resolvePercents, startsDivisor_append_opening, hbefore, List.cons_append]

/-- What follows a group does not change the percent signs in it. -/
theorem resolvePercents_append_closing (ts us : List Token) :
    resolvePercents (ts ++ .closing :: us) =
      resolvePercents ts ++ .closing :: resolvePercents us := by
  induction ts with
  | nil => rfl
  | cons t ts ih =>
    rw [List.cons_append, resolvePercents, startsDivisor_append_closing, ih, resolvePercents,
      List.cons_append]

theorem openAfter_add {depth n : Nat} {ts : List Token} (h : openAfter depth ts = some n)
    (k : Nat) :
    openAfter (depth + k) ts = some (n + k) := by
  fun_induction openAfter depth ts with
  | case1 depth =>
    cases h
    rfl
  | case2 depth t ts hkind ih =>
    simp only [openAfter, hkind]
    rw [Nat.add_right_comm]
    exact ih h
  | case3 t ts hkind => cases h
  | case4 t ts hkind depth ih =>
    simp only [Nat.add_right_comm depth 1 k, openAfter, hkind]
    exact ih h
  | case5 depth t ts hopening hclosing ih =>
    rw [openAfter_cons hopening hclosing]
    exact ih h

theorem openAfter_group {ts : List Token} (h : openAfter 0 ts = some 0) (depth : Nat)
    (us : List Token) :
    openAfter depth (.opening :: (ts ++ .closing :: us)) = openAfter depth us := by
  have hts : openAfter (depth + 1) ts = some (depth + 1) := by
    have hadd := openAfter_add h (depth + 1)
    rwa [Nat.zero_add] at hadd
  have hopening : openAfter depth (.opening :: (ts ++ .closing :: us)) =
      openAfter (depth + 1) (ts ++ .closing :: us) := rfl
  rw [hopening, openAfter_append, hts, Option.bind_some]
  rfl

/-! ### Texts with a group -/

def parenthesized (text : List Char) : List Char := '(' :: (text ++ [')'])

theorem scan_parenthesized {e : List Char} {ts : List Token}
    (h : scan (e.map plainSign) = .ok ts) (p q : List Char) :
    scan ((p ++ parenthesized e ++ q).map plainSign) = (do
      let before ← scan (p.map plainSign)
      let after ← scan (q.map plainSign)
      .ok (before ++ .opening :: (ts ++ .closing :: after))) := by
  have hmap : (p ++ parenthesized e ++ q).map plainSign =
      p.map plainSign ++ '(' :: (e.map plainSign ++ ')' :: q.map plainSign) := by
    have hopening : plainSign '(' = '(' := rfl
    have hclosing : plainSign ')' = ')' := rfl
    simp only [parenthesized, List.map_append, List.map_cons, List.cons_append,
      List.append_assoc, List.nil_append, hopening, hclosing]
  have hopening : ∀ rest, scan ('(' :: rest) = (Token.opening :: ·) <$> scan rest :=
    fun rest => scan_cons (by decide) rest
  have hclosing : ∀ rest, scan (')' :: rest) = (Token.closing :: ·) <$> scan rest :=
    fun rest => scan_cons (by decide) rest
  rw [hmap, scan_append (by decide), hopening, scan_append (by decide), hclosing, h]
  cases scan (p.map plainSign) with
  | error fault => rfl
  | ok before =>
    cases scan (q.map plainSign) with
    | error fault => rfl
    | ok after => rfl

theorem trim_parenthesized_ne_nil (p e q : List Char) : trim (p ++ parenthesized e ++ q) ≠ [] := by
  intro h
  have hblank := trim_eq_nil_iff.mp h '(' (by simp [parenthesized])
  exact absurd hblank (by decide)

/-- What the tokens around a group with the value `v` evaluate to. -/
def evaluateAround (nesting : Nat) (v : Extended) (before after : List Token) :
    Except Fault Decimal := do
  checkParentheses (before ++ after)
  let value ← (do
    let p ← Progress.start.readAll nesting (resolvePercents (before ++ [.opening])).dropLast
    let q ← p.readValue v
    let r ← q.readAll nesting (resolvePercents after)
    r.finish : Except Failure Extended).mapError Failure.toFault
  inRange value

theorem evaluateTokens_group {nesting : Nat} {ts : List Token} {v : Extended}
    (hopen : openAfter 0 ts = some 0) (h : compute nesting (resolvePercents ts) = .ok v)
    (before after : List Token) :
    evaluateTokens nesting (before ++ .opening :: (ts ++ .closing :: after)) =
        evaluateAround nesting v before after ∨
      evaluateTokens nesting (before ++ .opening :: (ts ++ .closing :: after)) =
        .error .tooComplex := by
  obtain ⟨resolved, hresolved⟩ := exists_resolvePercents_opening before
  have hresolve : resolvePercents (before ++ .opening :: (ts ++ .closing :: after)) =
      resolved ++ .opening :: (resolvePercents ts ++ .closing :: resolvePercents after) := by
    rw [hresolved, resolvePercents_append_closing]
  have hlast : (resolvePercents (before ++ [.opening])).dropLast = resolved := by
    rw [hresolved, resolvePercents, List.dropLast_concat]
  have hcheck : checkParentheses (before ++ .opening :: (ts ++ .closing :: after)) =
      checkParentheses (before ++ after) := by
    simp only [checkParentheses, balanced, openAfter_append, openAfter_group hopen]
  unfold evaluateTokens evaluateAround
  rw [hcheck, hresolve, hlast]
  rcases compute_group h resolved (resolvePercents after) with hcompute | hcompute
  · left
    rw [hcompute]
  · rw [hcompute]
    cases checkParentheses (before ++ after) with
    | error fault => exact .inl rfl
    | ok u => exact .inr rfl

/-- The text is too long, or it is nested too deeply to be evaluated to its end. -/
def ExceedsLimits (limits : Limits) (text : List Char) : Prop :=
  evaluate limits text = .error .tooLong ∨ evaluate limits text = .error .tooComplex

/-- A text with a group is evaluated as any other one in which the group has the same value. -/
theorem evaluate_group {limits : Limits} {e : List Char} {v : Extended}
    (h : rawValue limits e = .ok v) {p q : List Char}
    (hlimits : ¬ ExceedsLimits limits (p ++ parenthesized e ++ q)) :
    evaluate limits (p ++ parenthesized e ++ q) = (do
      let before ← scan (p.map plainSign)
      let after ← scan (q.map plainSign)
      evaluateAround limits.nesting v before after) := by
  obtain ⟨ts, hts, hopen, hcompute⟩ := tokens_of_rawValue h
  have hscan : scan (e.map plainSign) = .ok ts := by
    rw [← scan_normalizeText]
    exact (scan_of_tokenize hts).2
  obtain ⟨hlong, hdeep⟩ := not_or.mp hlimits
  rw [evaluate_eq_scan (trim_parenthesized_ne_nil p e q) hlong, scan_parenthesized hscan] at hdeep ⊢
  cases hp : scan (p.map plainSign) with
  | error fault => rfl
  | ok before =>
    cases hq : scan (q.map plainSign) with
    | error fault => rfl
    | ok after =>
      rw [hp, hq] at hdeep
      simp only [ok_bind] at hdeep ⊢
      exact (evaluateTokens_group hopen hcompute before after).resolve_right hdeep

/-- In every text a group may be replaced by another one with the same value, and parentheses around
a whole expression change nothing, as long as no limit is reached. -/
theorem evaluate_parenthesized {limits : Limits} {e₁ e₂ : List Char} {v : Extended}
    (h₁ : rawValue limits e₁ = .ok v) (h₂ : rawValue limits e₂ = .ok v) (p q : List Char) :
    (¬ ExceedsLimits limits (p ++ parenthesized e₁ ++ q) →
      ¬ ExceedsLimits limits (p ++ parenthesized e₂ ++ q) →
      evaluate limits (p ++ parenthesized e₁ ++ q) = evaluate limits (p ++ parenthesized e₂ ++ q)) ∧
    (¬ ExceedsLimits limits (parenthesized e₁) →
      evaluate limits (parenthesized e₁) = evaluate limits e₁) := by
  constructor
  · intro hlimits₁ hlimits₂
    rw [evaluate_group h₁ hlimits₁, evaluate_group h₂ hlimits₂]
  · intro hlimits
    have halone : [] ++ parenthesized e₁ ++ [] = parenthesized e₁ := List.append_nil _
    rw [← halone] at hlimits
    have hgroup := evaluate_group h₁ hlimits
    rw [halone] at hgroup
    have hnil : scan ([] : List Char) = .ok [] := by rw [scan]
    rw [hgroup, evaluate_of_rawValue h₁, List.map_nil, hnil]
    rfl

/-- The percent sign after the group refers to the hundred before it. -/
theorem evaluate_parenthesized_percent :
    evaluate .standard ("7%".toList ++ parenthesized "3+1".toList ++ "+(2*50)+10%".toList) =
      evaluate .standard ("7%".toList ++ parenthesized "8/2".toList ++ "+(2*50)+10%".toList) ∧
    evaluate .standard (parenthesized "3+1".toList) = evaluate .standard "3+1".toList := by
  have h₁ : rawValue .standard "3+1".toList = .ok (.finite ⟨false, 4, 0⟩) :=
    toOption_eq_some.mp (by decide +kernel)
  have h₂ : rawValue .standard "8/2".toList = .ok (.finite ⟨false, 4, 0⟩) :=
    toOption_eq_some.mp (by decide +kernel)
  obtain ⟨hcontext, halone⟩ := evaluate_parenthesized h₁ h₂ "7%".toList "+(2*50)+10%".toList
  refine ⟨hcontext ?_ ?_, halone ?_⟩
  · unfold ExceedsLimits
    decide +kernel
  · unfold ExceedsLimits
    decide +kernel
  · unfold ExceedsLimits
    decide +kernel

end PocketCalculator
