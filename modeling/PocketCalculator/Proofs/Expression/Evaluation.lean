import PocketCalculator.Proofs.Expression.Tokens

/-!
# The evaluator computes the value of the tree

The evaluator and the token machine go through the same steps, the one with values where the other
has trees. What a reading means to the evaluator is found from its trees alone, and one more token
read does not change that (`meaning_of_push`). So the evaluator gives a value if and only if the
tokens are those of a tree that is not nested too deeply, and it is the value of that tree.
-/

namespace PocketCalculator

variable {nesting : Nat}

/-! ### What a reading means -/

namespace OpenGroup

def openSum (g : OpenGroup) : Except Failure (Option OpenSum) :=
  match g.sum with
  | none => .ok none
  | some (e, minus) => do
    let left ← e.value .decimals
    let whole ← e.whole .decimals
    .ok (some ⟨left, minus, whole⟩)

def openProduct (g : OpenGroup) (sum : Option OpenSum) : Except Failure (Option OpenProduct) :=
  match g.product with
  | none => .ok none
  | some (t, op) => do
    let left ← t.value .decimals (sum.bind (·.whole))
    .ok (some ⟨left, op.operator⟩)

def meaning (g : OpenGroup) : Except Failure Group := do
  let sum ← g.openSum
  let product ← g.openProduct sum
  .ok ⟨sum, product, g.signs⟩

end OpenGroup

/-- The operand `x` with its percent signs, as the next operand of `g`. -/
def Primary.meaning (x : Primary) (g : Group) (percents : Nat) : Except Failure Operand := do
  let v ← x.value .decimals
  let y ← Arithmetic.decimals.marked g.whole v percents
  .ok ⟨y, percents = 0⟩

namespace Reading

def outerMeaning : List OpenGroup → Except Failure (List Group)
  | [] => .ok []
  | g :: outer => do
    let groups ← outerMeaning outer
    let group ← g.meaning
    .ok (group :: groups)

def meaning (r : Reading) : Except Failure Progress := do
  let outer ← outerMeaning r.outer
  let group ← r.group.meaning
  match r.operand with
  | none => .ok ⟨outer, group, none⟩
  | some (x, percents) => do
    let y ← x.meaning group percents
    .ok ⟨outer, group, some y⟩

end Reading

/-! ### Closing a factor, a term, a sum -/

namespace OpenGroup

theorem value_closeFactor (g : OpenGroup) (x : Primary) (percents : Nat)
    (whole : Option Extended) :
    (g.closeFactor x percents).value .decimals whole = (do
      let v ← x.value .decimals
      let y ← Arithmetic.decimals.marked (if g.signs.isEmpty then whole else none) v percents
      Group.signed ⟨none, none, g.signs⟩ y) := by
  obtain ⟨sum, product, signs⟩ := g
  have h : ∀ f : Factor, (signs.foldl (fun f minus => Factor.signed minus f) f).value .decimals
      whole = (do
        let y ← f.value .decimals (if signs.isEmpty then whole else none)
        Group.signed ⟨none, none, signs⟩ y) := by
    induction signs with
    | nil =>
      intro f
      exact (bind_ok_eq _).symm
    | cons minus signs ih =>
      intro f
      have hsigned : (Factor.signed minus f).value .decimals
          (if signs.isEmpty then whole else none) =
            (f.value .decimals none >>= Arithmetic.decimals.signed minus) := rfl
      simp only [List.foldl_cons, ih, hsigned, bind_assoc, List.isEmpty_cons,
        Bool.false_eq_true, if_false]
      rfl
  have hplain := h (.plain x percents)
  simp only [Factor.value, bind_assoc] at hplain
  exact hplain

theorem value_closeTerm (g : OpenGroup) (x : Primary) (percents : Nat) (sum : Option OpenSum) :
    (g.closeTerm x percents).value .decimals (sum.bind (·.whole)) = (do
      let product ← g.openProduct sum
      let y ← x.meaning ⟨sum, product, g.signs⟩ percents
      Group.closeProduct ⟨sum, product, g.signs⟩ y.value) := by
  cases hproduct : g.product with
  | none =>
    have hclose : g.closeTerm x percents = .single (g.closeFactor x percents) := by
      simp only [closeTerm, hproduct]
    have hopen : g.openProduct sum = .ok none := by simp only [openProduct, hproduct]
    rw [hclose, hopen]
    simp only [Term.value, value_closeFactor, ok_bind, Primary.meaning, Group.closeProduct,
      Group.whole, bind_assoc, Option.isNone_none, Bool.true_and, bind_ok_eq]
    rfl
  | some p =>
    obtain ⟨t, op⟩ := p
    have hclose : g.closeTerm x percents = .chain t op (g.closeFactor x percents) := by
      simp only [closeTerm, hproduct]
    have hopen : g.openProduct sum =
        (do let left ← t.value .decimals (sum.bind (·.whole)); .ok (some ⟨left, op.operator⟩)) := by
      simp only [openProduct, hproduct]
    rw [hclose, hopen]
    simp only [Term.value, value_closeFactor, ok_bind, Primary.meaning, Group.closeProduct,
      Group.whole, bind_assoc, Option.isNone_some, Bool.false_and, Bool.false_eq_true, if_false,
      ite_self]
    rfl

theorem value_closeExpr (g : OpenGroup) (x : Primary) (percents : Nat) :
    (g.closeExpr x percents).value .decimals = (do
      let group ← g.meaning
      let y ← x.meaning group percents
      group.closeSum y.value) := by
  cases hsum : g.sum with
  | none =>
    have hclose : g.closeExpr x percents = .single (g.closeTerm x percents) := by
      simp only [closeExpr, hsum]
    have hopen : g.openSum = .ok none := by simp only [openSum, hsum]
    have hterm := g.value_closeTerm x percents none
    rw [Option.bind_none] at hterm
    simp only [hclose, Expr.value, hterm, meaning, hopen, ok_bind, bind_assoc, Group.closeSum,
      bind_ok_eq]
  | some p =>
    obtain ⟨e, minus⟩ := p
    have hclose : g.closeExpr x percents = .chain e minus (g.closeTerm x percents) := by
      simp only [closeExpr, hsum]
    have hopen : g.openSum = (do
        let left ← e.value .decimals
        let whole ← e.whole .decimals
        .ok (some ⟨left, minus, whole⟩)) := by
      simp only [openSum, hsum]
    have hterm : ∀ left whole, (g.closeTerm x percents).value .decimals whole = _ :=
      fun left whole => g.value_closeTerm x percents (some ⟨left, minus, whole⟩)
    simp only [hclose, Expr.value, meaning, hopen, ok_bind, bind_assoc, Group.closeSum]
    refine bind_congr fun left => bind_congr fun whole => ?_
    rw [hterm left whole]
    simp only [bind_assoc]
    rfl

theorem whole_closeExpr (g : OpenGroup) (x : Primary) (percents : Nat) :
    (g.closeExpr x percents).whole .decimals =
      if percents = 0 then some <$> x.value .decimals else .ok none := by
  have hfactor : ∀ (signs : List Bool) (f : Factor),
      (signs.foldl (fun f minus => Factor.signed minus f) f).whole .decimals =
        f.whole .decimals := by
    intro signs
    induction signs with
    | nil =>
      intro f
      rfl
    | cons minus signs ih =>
      intro f
      exact ih (.signed minus f)
  have hterm : (g.closeTerm x percents).whole .decimals =
      if percents = 0 then some <$> x.value .decimals else .ok none := by
    unfold closeTerm
    cases g.product with
    | none => exact hfactor g.signs (.plain x percents)
    | some p => exact hfactor g.signs (.plain x percents)
  unfold closeExpr
  cases g.sum with
  | none => exact hterm
  | some p => exact hterm

end OpenGroup

/-! ### One token -/

namespace Reading

theorem signs_of_meaning {g : OpenGroup} {group : Group} (h : g.meaning = .ok group) :
    group.signs = g.signs := by
  obtain ⟨sum, _, h⟩ := bind_eq_ok.mp h
  obtain ⟨product, _, h⟩ := bind_eq_ok.mp h
  cases h
  rfl

theorem outerMeaning_cons {outer : List OpenGroup} {g : OpenGroup} {groups : List Group}
    {group : Group} (houter : outerMeaning outer = .ok groups) (hgroup : g.meaning = .ok group) :
    outerMeaning (g :: outer) = .ok (group :: groups) := by
  simp only [outerMeaning, houter, hgroup, ok_bind]

theorem map_signs_outerMeaning {outer : List OpenGroup} {groups : List Group}
    (h : outerMeaning outer = .ok groups) :
    groups.map (·.signs) = outer.map (·.signs) := by
  induction outer generalizing groups with
  | nil =>
    cases h
    rfl
  | cons g outer ih =>
    obtain ⟨gs, hgs, h⟩ := bind_eq_ok.mp h
    obtain ⟨group, hgroup, h⟩ := bind_eq_ok.mp h
    cases h
    simp only [List.map_cons, ih hgs, signs_of_meaning hgroup]

theorem depth_of_meaning {outer : List OpenGroup} {g : OpenGroup}
    {operand : Option (Primary × Nat)} {groups : List Group} {group : Group}
    {operand' : Option Operand} (houter : outerMeaning outer = .ok groups)
    (hsigns : group.signs = g.signs) :
    (Progress.mk groups group operand').depth = depth ⟨outer, g, operand⟩ := by
  have hlength : groups.length = outer.length := by
    rw [← List.length_map, map_signs_outerMeaning houter, List.length_map]
  have hfold : ∀ n, groups.foldl (fun n g => n + g.signs.length) n =
      outer.foldl (fun n g => n + g.signs.length) n := by
    intro n
    have h := congrArg (List.foldl (fun n (signs : List Bool) => n + signs.length) n)
      (map_signs_outerMeaning houter)
    rwa [List.foldl_map, List.foldl_map] at h
  simp only [Progress.depth, depth, List.foldl_cons, hsigns, hlength, hfold]

theorem meaning_sign {outer : List OpenGroup} {g : OpenGroup} {minus : Bool}
    (h : depth ⟨outer, { g with signs := minus :: g.signs }, none⟩ ≤ nesting) :
    meaning ⟨outer, { g with signs := minus :: g.signs }, none⟩ = (do
      let p ← meaning ⟨outer, g, none⟩
      Progress.checkDepth nesting { p with group.signs := minus :: p.group.signs }) := by
  cases houter : outerMeaning outer with
  | error e => simp only [meaning, houter, error_bind]
  | ok groups =>
    simp only [meaning, houter, ok_bind, OpenGroup.meaning, bind_assoc]
    refine bind_congr fun sum => bind_congr fun product => ?_
    have hdepth : Progress.depth ⟨groups, ⟨sum, product, minus :: g.signs⟩, none⟩ =
        depth ⟨outer, { g with signs := minus :: g.signs }, none⟩ := depth_of_meaning houter rfl
    exact (if_neg (by rw [hdepth]; omega)).symm

theorem meaning_opening {outer : List OpenGroup} {g : OpenGroup}
    (h : depth ⟨g :: outer, .empty, none⟩ ≤ nesting) :
    meaning ⟨g :: outer, .empty, none⟩ = (do
      let p ← meaning ⟨outer, g, none⟩
      Progress.checkDepth nesting ⟨p.group :: p.outer, .empty, none⟩) := by
  cases houter : outerMeaning outer with
  | error e => simp only [meaning, outerMeaning, houter, error_bind]
  | ok groups =>
    cases hgroup : g.meaning with
    | error e => simp only [meaning, outerMeaning, houter, hgroup, ok_bind, error_bind]
    | ok group =>
      have hcons := outerMeaning_cons houter hgroup
      have hdepth : Progress.depth ⟨group :: groups, .empty, none⟩ =
          depth ⟨g :: outer, .empty, none⟩ := depth_of_meaning hcons rfl
      have hempty : OpenGroup.meaning .empty = .ok .empty := rfl
      simp only [meaning, hcons, houter, hgroup, hempty, ok_bind, Progress.checkDepth, hdepth]
      exact (if_neg (by omega)).symm

/-- Where an operand is expected, the evaluator does what the token machine does. -/
theorem meaning_of_pushOperand {r s : Reading} {t : Token} (hr : r.operand = none)
    (h : r.pushOperand nesting t = some s) :
    s.meaning = (do let p ← r.meaning; p.readOperand nesting t) := by
  obtain ⟨outer, g, operand⟩ := r
  subst hr
  unfold pushOperand at h
  unfold Progress.readOperand
  cases hkind : t.kind with
  | number =>
    rw [hkind] at h
    cases Option.some.inj h
    simp only [meaning, bind_assoc, ok_bind, Primary.meaning, Primary.value]
    refine bind_congr fun groups => bind_congr fun group => ?_
    cases htext : Extended.ofText? t.text with
    | none => simp only [Arithmetic.decimals, htext, error_bind]
    | some x => simp only [Arithmetic.decimals, Arithmetic.marked, htext, ok_bind, decide_true]
  | opening =>
    rw [hkind] at h
    obtain ⟨hdepth, rfl⟩ := checkDepth_eq_some.mp h
    exact meaning_opening hdepth
  | operator =>
    rw [hkind] at h
    cases hop : Operator.ofText? t.text with
    | none => simp [hop] at h
    | some op =>
      cases op with
      | add =>
        simp only [hop] at h
        obtain ⟨hdepth, rfl⟩ := checkDepth_eq_some.mp h
        exact meaning_sign hdepth
      | sub =>
        simp only [hop] at h
        obtain ⟨hdepth, rfl⟩ := checkDepth_eq_some.mp h
        exact meaning_sign hdepth
      | mul => simp [hop] at h
      | div => simp [hop] at h
      | rem => simp [hop] at h
  | percent => simp [hkind] at h
  | closing => simp [hkind] at h

end Reading

theorem Primary.meaning_succ (x : Primary) (group : Group) (percents : Nat) :
    x.meaning group (percents + 1) = (do
      let y ← x.meaning group percents
      y.withPercent group.whole) := by
  simp only [Primary.meaning, bind_assoc, ok_bind]
  refine bind_congr fun v => ?_
  cases percents with
  | zero =>
    simp only [Arithmetic.marked, ok_bind, Operand.withPercent, Arithmetic.decimals, decide_true]
    cases group.whole with
    | none =>
      cases percent v with
      | error e => rfl
      | ok a => rfl
    | some w =>
      simp only
      cases percentOf w v with
      | error e => rfl
      | ok a => rfl
  | succ k =>
    simp only [Arithmetic.marked, bind_assoc]
    refine bind_congr fun y => ?_
    have hbare : decide (k + 1 = 0) = false := rfl
    simp only [Operand.withPercent, hbare, Arithmetic.decimals]
    cases percent y with
    | error e => cases group.whole <;> rfl
    | ok a => cases group.whole <;> rfl

theorem OpenGroup.whole_of_meaning (g : OpenGroup) {x : Primary} {group : Group}
    {percents : Nat} {y : Operand} (h : x.meaning group percents = .ok y) :
    (g.closeExpr x percents).whole .decimals = .ok y.asWhole := by
  rw [whole_closeExpr]
  obtain ⟨v, hv, h⟩ := bind_eq_ok.mp h
  obtain ⟨z, hz, h⟩ := bind_eq_ok.mp h
  cases h
  cases percents with
  | zero =>
    cases hz
    rw [if_pos rfl, hv]
    rfl
  | succ k => exact if_neg (Nat.succ_ne_zero k)

namespace Reading

theorem meaning_after (outer : List OpenGroup) (g : OpenGroup) (x : Primary) (percents : Nat) :
    meaning ⟨outer, g, some (x, percents)⟩ = (do
      let groups ← outerMeaning outer
      let group ← g.meaning
      let y ← x.meaning group percents
      .ok ⟨groups, group, some y⟩) := rfl

theorem meaning_sum (outer : List OpenGroup) (g : OpenGroup) (x : Primary) (percents : Nat)
    (minus : Bool) :
    meaning ⟨outer, ⟨some (g.closeExpr x percents, minus), none, []⟩, none⟩ = (do
      let groups ← outerMeaning outer
      let group ← g.meaning
      let y ← x.meaning group percents
      let left ← group.closeSum y.value
      .ok ⟨groups, ⟨some ⟨left, minus, y.asWhole⟩, none, []⟩, none⟩) := by
  simp only [meaning, OpenGroup.meaning, OpenGroup.openSum, OpenGroup.openProduct,
    OpenGroup.value_closeExpr, bind_assoc, ok_bind]
  refine bind_congr fun groups => bind_congr fun sum => bind_congr fun product => ?_
  cases hy : x.meaning ⟨sum, product, g.signs⟩ percents with
  | error e => rfl
  | ok y => simp only [ok_bind, g.whole_of_meaning hy]

theorem meaning_product (outer : List OpenGroup) (g : OpenGroup) (x : Primary) (percents : Nat)
    (op : Scaling) :
    meaning ⟨outer, ⟨g.sum, some (g.closeTerm x percents, op), []⟩, none⟩ = (do
      let groups ← outerMeaning outer
      let group ← g.meaning
      let y ← x.meaning group percents
      let left ← group.closeProduct y.value
      .ok ⟨groups, ⟨group.sum, some ⟨left, op.operator⟩, []⟩, none⟩) := by
  have hsum : OpenGroup.openSum ⟨g.sum, some (g.closeTerm x percents, op), []⟩ = g.openSum := rfl
  simp only [meaning, OpenGroup.meaning, hsum, OpenGroup.openProduct, OpenGroup.value_closeTerm,
    bind_assoc, ok_bind]

theorem meaning_closing (outer : List OpenGroup) (g g' : OpenGroup) (x : Primary)
    (percents : Nat) :
    meaning ⟨outer, g', some (.group (g.closeExpr x percents), 0)⟩ = (do
      let groups ← outerMeaning outer
      let group' ← g'.meaning
      let group ← g.meaning
      let y ← x.meaning group percents
      let value ← group.closeSum y.value
      .ok ⟨groups, group', some ⟨value, true⟩⟩) := by
  simp only [meaning_after, Primary.meaning, Primary.value, OpenGroup.value_closeExpr,
    Arithmetic.marked, bind_assoc, ok_bind, decide_true]

/-- After an operand, the evaluator does what the token machine does. -/
theorem meaning_of_pushAfter {r s : Reading} {x : Primary} {percents : Nat} {t : Token}
    (hr : r.operand = some (x, percents)) (h : r.pushAfter x percents t = some s) :
    s.meaning = (do let p ← r.meaning; p.read nesting t) := by
  obtain ⟨outer, g, operand⟩ := r
  subst hr
  unfold pushAfter at h
  unfold Progress.read Progress.readAfter
  cases hkind : t.kind with
  | percent =>
    rw [hkind] at h
    cases Option.some.inj h
    simp only [meaning_after, Primary.meaning_succ, bind_assoc, ok_bind]
  | closing =>
    rw [hkind] at h
    cases outer with
    | nil => cases h
    | cons g' outer =>
      cases Option.some.inj h
      refine (meaning_closing outer g g' x percents).trans ?_
      simp only [meaning_after, outerMeaning, bind_assoc, ok_bind]
  | operator =>
    simp only [hkind] at h
    obtain ⟨op, hop, rfl⟩ := Option.map_eq_some_iff.mp h
    simp only [meaning_after, hop, bind_assoc, ok_bind]
    cases op with
    | add => exact meaning_sum outer g x percents false
    | sub => exact meaning_sum outer g x percents true
    | mul => exact meaning_product outer g x percents .times
    | div => exact meaning_product outer g x percents .divided
    | rem => exact meaning_product outer g x percents .modulo
  | number => simp [hkind] at h
  | opening => simp [hkind] at h

theorem operand_of_meaning {r : Reading} {p : Progress} (h : r.meaning = .ok p) :
    p.operand.isSome = r.operand.isSome := by
  obtain ⟨outer, g, operand⟩ := r
  obtain ⟨groups, _, h⟩ := bind_eq_ok.mp h
  obtain ⟨group, _, h⟩ := bind_eq_ok.mp h
  cases operand with
  | none =>
    cases h
    rfl
  | some operand =>
    obtain ⟨y, _, h⟩ := bind_eq_ok.mp h
    cases h
    rfl

/-- What a reading means does not change when the evaluator reads the token instead. -/
theorem meaning_of_push {r s : Reading} {t : Token} (h : r.push nesting t = some s) :
    s.meaning = (do let p ← r.meaning; p.read nesting t) := by
  unfold push at h
  cases hr : r.operand with
  | none =>
    simp only [hr] at h
    rw [meaning_of_pushOperand hr h]
    cases hp : r.meaning with
    | error e => rfl
    | ok p =>
      have hoperand : p.operand = none := by
        have hsome := operand_of_meaning hp
        rw [hr] at hsome
        exact Option.not_isSome_iff_eq_none.mp (by rw [hsome]; decide)
      simp only [ok_bind, Progress.read, hoperand]
  | some operand =>
    simp only [hr] at h
    exact meaning_of_pushAfter hr h

theorem not_ok_of_checkDepth {r : Reading} {p : Progress}
    (hr : r.checkDepth nesting = none) (hdepth : p.depth = r.depth) (q : Progress) :
    p.checkDepth nesting ≠ .ok q := by
  rw [checkDepth_eq_none, ← hdepth] at hr
  rw [Progress.checkDepth, if_pos hr]
  exact fun hp => by cases hp

theorem not_ok_of_pushOperand {outer : List OpenGroup} {g : OpenGroup} {t : Token}
    (h : pushOperand nesting ⟨outer, g, none⟩ t = none) {groups : List Group}
    {group : Group} (houter : outerMeaning outer = .ok groups) (hgroup : g.meaning = .ok group)
    (q : Progress) : Progress.readOperand nesting ⟨groups, group, none⟩ t ≠ .ok q := by
  unfold pushOperand at h
  unfold Progress.readOperand
  cases hkind : t.kind with
  | number => simp [hkind] at h
  | opening =>
    rw [hkind] at h
    exact not_ok_of_checkDepth h (depth_of_meaning (outerMeaning_cons houter hgroup) rfl) q
  | operator =>
    rw [hkind] at h
    have hdepth : ∀ minus,
        Progress.depth ⟨groups, { group with signs := minus :: group.signs }, none⟩ =
          depth ⟨outer, { g with signs := minus :: g.signs }, none⟩ := by
      intro minus
      exact depth_of_meaning houter (by rw [signs_of_meaning hgroup])
    cases hop : Operator.ofText? t.text with
    | none => simp
    | some op =>
      cases op with
      | add =>
        simp only [hop] at h
        exact not_ok_of_checkDepth h (hdepth false) q
      | sub =>
        simp only [hop] at h
        exact not_ok_of_checkDepth h (hdepth true) q
      | mul => simp
      | div => simp
      | rem => simp
  | percent => simp
  | closing =>
    simp only
    split
    · simp
    · simp

theorem not_ok_of_pushAfter {outer : List OpenGroup} {g : OpenGroup} {x : Primary}
    {percents : Nat} {t : Token}
    (h : pushAfter ⟨outer, g, some (x, percents)⟩ x percents t = none) {groups : List Group}
    (houter : outerMeaning outer = .ok groups) (group : Group) (y : Operand) (q : Progress) :
    Progress.readAfter ⟨groups, group, some y⟩ y t ≠ .ok q := by
  unfold pushAfter at h
  unfold Progress.readAfter
  intro hq
  cases hkind : t.kind with
  | percent => simp [hkind] at h
  | closing =>
    cases outer with
    | nil =>
      cases houter
      rw [hkind] at hq
      obtain ⟨value, _, hq⟩ := bind_eq_ok.mp hq
      cases hq
    | cons g' outer => simp [hkind] at h
  | operator =>
    simp only [hkind, Option.map_eq_none_iff] at h
    simp only [hkind, h] at hq
    obtain ⟨value, _, hq⟩ := bind_eq_ok.mp hq
    cases hq
  | number =>
    rw [hkind] at hq
    obtain ⟨value, _, hq⟩ := bind_eq_ok.mp hq
    cases hq
  | opening =>
    rw [hkind] at hq
    obtain ⟨value, _, hq⟩ := bind_eq_ok.mp hq
    cases hq

/-- What the token machine refuses, the evaluator refuses. -/
theorem not_ok_of_push {r : Reading} {t : Token} (h : r.push nesting t = none)
    {p : Progress} (hp : r.meaning = .ok p) (q : Progress) : p.read nesting t ≠ .ok q := by
  obtain ⟨outer, g, operand⟩ := r
  obtain ⟨groups, houter, hp⟩ := bind_eq_ok.mp hp
  obtain ⟨group, hgroup, hp⟩ := bind_eq_ok.mp hp
  cases operand with
  | none =>
    cases hp
    exact not_ok_of_pushOperand h houter hgroup q
  | some operand =>
    obtain ⟨y, _, hp⟩ := bind_eq_ok.mp hp
    cases hp
    exact not_ok_of_pushAfter h houter group y q

/-! ### All tokens -/

theorem meaning_of_pushAll {r s : Reading} {ts : List Token}
    (h : r.pushAll nesting ts = some s) :
    s.meaning = (do let p ← r.meaning; p.readAll nesting ts) := by
  induction ts generalizing r with
  | nil =>
    cases Option.some.inj h
    exact (bind_ok_eq _).symm
  | cons t ts ih =>
    obtain ⟨q, hq, hs⟩ := Option.bind_eq_some_iff.mp h
    rw [ih hs, meaning_of_push hq, bind_assoc]
    rfl

theorem exists_of_readAll {r : Reading} {p q : Progress} {ts : List Token}
    (hp : r.meaning = .ok p) (h : p.readAll nesting ts = .ok q) :
    ∃ s, r.pushAll nesting ts = some s := by
  induction ts generalizing r p with
  | nil => exact ⟨r, rfl⟩
  | cons t ts ih =>
    obtain ⟨p', hp', h⟩ := bind_eq_ok.mp h
    cases hpush : r.push nesting t with
    | none => exact absurd hp' (not_ok_of_push hpush hp p')
    | some r' =>
      have hr' : r'.meaning = .ok p' := by
        rw [meaning_of_push hpush, hp, ok_bind, hp']
      obtain ⟨s, hs⟩ := ih hr' h
      exact ⟨s, by rw [pushAll_cons hpush, hs]⟩

theorem value_of_finish {s : Reading} {e : Expr} (h : s.finish = some e) :
    e.value .decimals = (do let p ← s.meaning; p.finish) := by
  obtain ⟨outer, g, operand⟩ := s
  cases operand with
  | none => cases h
  | some operand =>
    obtain ⟨x, percents⟩ := operand
    cases outer with
    | nil =>
      cases h
      simp only [OpenGroup.value_closeExpr, meaning_after, outerMeaning, Progress.finish,
        List.isEmpty_nil, if_true, bind_assoc, ok_bind, bind_ok_eq]
    | cons g' outer => cases h

theorem exists_of_finish {s : Reading} {p : Progress} {v : Extended} (hp : s.meaning = .ok p)
    (h : p.finish = .ok v) : ∃ e, s.finish = some e := by
  obtain ⟨outer, g, operand⟩ := s
  obtain ⟨groups, houter, hp⟩ := bind_eq_ok.mp hp
  obtain ⟨group, hgroup, hp⟩ := bind_eq_ok.mp hp
  cases operand with
  | none =>
    cases hp
    cases h
  | some operand =>
    obtain ⟨y, _, hp⟩ := bind_eq_ok.mp hp
    cases hp
    cases outer with
    | nil => exact ⟨_, rfl⟩
    | cons g' outer =>
      obtain ⟨gs, _, houter⟩ := bind_eq_ok.mp houter
      obtain ⟨group', _, houter⟩ := bind_eq_ok.mp houter
      cases houter
      obtain ⟨value, _, h⟩ := bind_eq_ok.mp h
      cases h

end Reading

/-! ### Expressions -/

theorem compute_eq (nesting : Nat) (ts : List Token) :
    compute nesting ts = (do let p ← Progress.start.readAll nesting ts; p.finish) := rfl

/-- The evaluator computes the value of a tree from its tokens, and fails as the tree does. -/
theorem compute_tokens {e : Expr} (h : e.depth ≤ nesting) :
    compute nesting e.tokens = e.value .decimals := by
  have hread := e.pushAll_start nesting
  rw [if_pos h] at hread
  have hmeaning := Reading.meaning_of_pushAll hread
  rw [Reading.value_of_finish e.finish_read, hmeaning]
  rfl

/-- What has a value is a tree that is not nested too deeply. -/
theorem exists_of_compute {ts : List Token} (hts : ∀ t ∈ ts, t.IsSpelled) {v : Extended}
    (h : compute nesting ts = .ok v) : ∃ e : Expr, e.tokens = ts ∧ e.depth ≤ nesting := by
  rw [compute_eq] at h
  obtain ⟨p, hp, hfinish⟩ := bind_eq_ok.mp h
  obtain ⟨s, hs⟩ := Reading.exists_of_readAll (r := .start) rfl hp
  have hmeaning : s.meaning = .ok p := (Reading.meaning_of_pushAll hs).trans hp
  obtain ⟨e, he⟩ := Reading.exists_of_finish hmeaning hfinish
  have htokens := Reading.tokens_of_finish hts hs he
  refine ⟨e, htokens, Nat.le_of_not_lt fun hdepth => ?_⟩
  have hread := e.pushAll_start nesting
  rw [if_neg (Nat.not_le.mpr hdepth), htokens, hs] at hread
  cases hread

/-- A text's tokens have a value if and only if they are the tokens of a tree that is not nested too
deeply and that has this value. -/
theorem compute_eq_ok_iff {limit : Nat} {text : List Char} {ts : List Token}
    (h : tokenize limit text = .ok ts) (v : Extended) :
    compute nesting (resolvePercents ts) = .ok v ↔
      ∃ e : Expr, e.tokens = resolvePercents ts ∧ e.depth ≤ nesting ∧
        e.value .decimals = .ok v := by
  constructor
  · intro hv
    obtain ⟨e, htokens, hdepth⟩ := exists_of_compute (isSpelled_of_tokenize h) hv
    refine ⟨e, htokens, hdepth, ?_⟩
    rw [← compute_tokens hdepth, htokens]
    exact hv
  · rintro ⟨e, htokens, hdepth, hv⟩
    rw [← htokens, compute_tokens hdepth]
    exact hv

/-- Half of the group is taken away; the percent sign after it does not refer to the signed two. -/
theorem compute_eq_ok_iff_group :
    tokenize 1024 "2-(7 mod 4)-50%-+-2%".toList =
        .ok [.number ['2'], .operator '-', .opening, .number ['7'], .modulus, .number ['4'],
          .closing, .operator '-', .number ['5', '0'], .percent, .operator '-', .operator '+',
          .operator '-', .number ['2'], .percent] ∧
      ∃ e : Expr, e.tokens = [.number ['2'], .operator '-', .opening, .number ['7'], .modulus,
          .number ['4'], .closing, .operator '-', .number ['5', '0'], .percent, .operator '-',
          .operator '+', .operator '-', .number ['2'], .percent] ∧
        e.depth ≤ 900 ∧ e.value .decimals = .ok (.finite ⟨true, 248, -2⟩) := by
  have htokens : tokenize 1024 "2-(7 mod 4)-50%-+-2%".toList =
      .ok [.number ['2'], .operator '-', .opening, .number ['7'], .modulus, .number ['4'], .closing,
        .operator '-', .number ['5', '0'], .percent, .operator '-', .operator '+', .operator '-',
        .number ['2'], .percent] := toOption_eq_some.mp (by decide +kernel)
  refine ⟨htokens, (compute_eq_ok_iff htokens _).mp (toOption_eq_some.mp ?_)⟩
  decide +kernel

end PocketCalculator
