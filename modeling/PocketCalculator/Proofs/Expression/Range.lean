import PocketCalculator.Proofs.Expression.Bounds
import PocketCalculator.Proofs.Expression.Evaluation

/-!
# Operands out of range

The range is checked after every operation and every percent sign. It is not checked where a number
is read, nor for the product of which a percent sign takes a hundredth. So the operands of a text
that has a value are all within the range if and only if its numbers and these products are
(`operands_inBounds_iff`), and they need not be (`operands_return_to_range`).
-/

namespace PocketCalculator

/-! ### The range -/

/-- Rounded to the calculator's precision, the value is a decimal within the bound. -/
def Extended.InBounds (x : Extended) : Prop := ∃ y, inRange x = .ok y

theorem Decimal.toExponent_flip (ties : Ties) (x : Decimal) (e : Int) :
    x.flip.toExponent ties e = (x.toExponent ties e).flip := by
  have hzero : x.flip.adjusted = x.adjusted := rfl
  have hexponent : x.flip.exponent = x.exponent := rfl
  simp only [toExponent, hzero, hexponent]
  split
  · rfl
  · split <;> rfl

theorem Decimal.uncarry_flip (precision : Nat) (x : Decimal) :
    x.flip.uncarry precision = (x.uncarry precision).flip := by
  have hdigits : x.flip.digits = x.digits := rfl
  simp only [uncarry, hdigits]
  split <;> rfl

/-- Rounding does not look at the sign. -/
theorem Context.round_flip {c : Context} {x y : Decimal} (h : c.round x = .ok y) :
    c.round x.flip = .ok y.flip := by
  have hzero : x.flip.isZero = x.isZero := rfl
  have htarget : c.targetExponent x.flip = c.targetExponent x := rfl
  have hbound : ∀ z : Decimal, z.flip.isZero = z.isZero ∧ z.flip.adjusted = z.adjusted :=
    fun z => ⟨rfl, rfl⟩
  unfold round at h ⊢
  rw [hzero]
  split at h
  · next hx =>
    cases h
    rw [if_pos hx]
    rfl
  · next hx =>
    rw [if_neg hx]
    simp only [htarget, Decimal.toExponent_flip, Decimal.uncarry_flip, hbound] at h ⊢
    split at h
    · cases h
    · next hadjusted =>
      cases h
      exact if_neg hadjusted

section Bounds

variable {x y : Decimal}

theorem inBounds_of_contains (hx : calculator.Contains x) (h : x.exceeds largest = false) :
    (Extended.finite x).InBounds := by
  refine ⟨_, inRange_eq_ok.mpr ⟨Context.plus_of_contains hx, ?_⟩⟩
  split
  · exact h
  · exact h

/-- What has been brought into range is within it. -/
theorem inBounds_of_settle {r : Except Signal Extended} (h : settle r = .ok y) :
    (Extended.finite y).InBounds := by
  unfold settle at h
  split at h
  · have hrange := mapError_eq_ok.mp h
    obtain ⟨x, rfl⟩ := finite_of_inRange hrange
    exact inBounds_of_contains (contains_of_inRange hrange) (inRange_eq_ok.mp hrange).2
  · cases h

theorem inBounds_of_apply {op : Operator} {a b : Extended} (h : op.apply a b = .ok y) :
    (Extended.finite y).InBounds := by
  cases op with
  | add => exact inBounds_of_settle h
  | sub => exact inBounds_of_settle h
  | mul => exact inBounds_of_settle h
  | div =>
    obtain ⟨_, _, h⟩ := bind_eq_ok.mp h
    exact inBounds_of_settle h
  | rem =>
    obtain ⟨_, _, h⟩ := bind_eq_ok.mp h
    exact inBounds_of_settle h

/-- The opposite of what is within the range is so. -/
theorem inBounds_of_negated {w : Extended} (hx : (Extended.finite x).InBounds)
    (h : negated (.finite x) = .ok w) : w.InBounds := by
  obtain ⟨y, hy⟩ := hx
  obtain ⟨hplus, hexceeds⟩ := inRange_eq_ok.mp hy
  obtain ⟨z, hminus, rfl⟩ := map_eq_ok.mp (mapError_eq_ok.mp h)
  have hcontains := Context.contains_of_round (by decide) hminus
  unfold Context.plus at hplus
  unfold Context.minus at hminus
  split at hminus
  · next hzero =>
    rw [if_pos hzero, hminus] at hplus
    cases hplus
    exact inBounds_of_contains hcontains hexceeds
  · next hnonzero =>
    rw [if_neg hnonzero] at hplus
    rw [Context.round_flip hplus] at hminus
    cases hminus
    exact inBounds_of_contains hcontains hexceeds

end Bounds

/-! ### Operands -/

/-- Where an operand comes from: a number that was read, a minus sign, a product of which a
hundredth is taken, or the outcome of an operation or a percent sign. -/
inductive Origin where
  | literal
  | negation
  | product
  | result
  deriving DecidableEq

/-- A value and all operands met on the way to it. -/
structure Traced where
  value : Extended
  operands : List (Origin × Extended)

/-- The calculator's arithmetic, with a record of the operands. -/
def Arithmetic.traced : Arithmetic Failure Traced where
  number text := do
    let x ← Arithmetic.decimals.number text
    .ok ⟨x, [(.literal, x)]⟩
  negate x := do
    let y ← negated x.value
    .ok ⟨y, x.operands ++ [(.negation, y)]⟩
  apply op x y := do
    let z ← op.apply x.value y.value
    .ok ⟨.finite z, x.operands ++ y.operands ++ [(.result, .finite z)]⟩
  percent x := do
    let z ← PocketCalculator.percent x.value
    .ok ⟨.finite z, x.operands ++ [(.result, .finite z)]⟩
  percentOf whole x := do
    let product ← (calculator.mul whole.value x.value).mapError .signal
    let z ← PocketCalculator.percentOf whole.value x.value
    .ok ⟨.finite z, whole.operands ++ x.operands ++ [(.product, product), (.result, .finite z)]⟩

/-! ### What is checked -/

section Checked

variable {texts : List Char → Prop} {l l' : List (Origin × Extended)} {x y : Extended}

/-- The operands that no check has seen are within the range all the same. -/
def UncheckedInBounds (l : List (Origin × Extended)) : Prop :=
  ∀ x, (Origin.literal, x) ∈ l ∨ (Origin.product, x) ∈ l → x.InBounds

/-- The literals are of certain texts, every result is within the range, and so is every opposite if
what no check has seen is. -/
structure OperandsChecked (texts : List Char → Prop) (l : List (Origin × Extended)) : Prop where
  literal : ∀ x, (Origin.literal, x) ∈ l → ∃ text, texts text ∧ Extended.ofText? text = some x
  result : ∀ x, (Origin.result, x) ∈ l → x.InBounds
  negation : UncheckedInBounds l → ∀ x, (Origin.negation, x) ∈ l → x.InBounds

theorem UncheckedInBounds.left (h : UncheckedInBounds (l ++ l')) : UncheckedInBounds l :=
  fun x hx => h x (hx.imp (List.mem_append_left l') (List.mem_append_left l'))

theorem UncheckedInBounds.right (h : UncheckedInBounds (l ++ l')) : UncheckedInBounds l' :=
  fun x hx => h x (hx.imp (List.mem_append_right l) (List.mem_append_right l))

theorem OperandsChecked.append (h : OperandsChecked texts l) (h' : OperandsChecked texts l') :
    OperandsChecked texts (l ++ l') where
  literal x hx := (List.mem_append.mp hx).elim (h.literal x) (h'.literal x)
  result x hx := (List.mem_append.mp hx).elim (h.result x) (h'.result x)
  negation hunchecked x hx := (List.mem_append.mp hx).elim (h.negation hunchecked.left x)
    (h'.negation hunchecked.right x)

theorem operandsChecked_literal {text : List Char} (htext : texts text)
    (h : Extended.ofText? text = some x) : OperandsChecked texts [(.literal, x)] where
  literal y hy := by
    cases List.mem_singleton.mp hy
    exact ⟨text, htext, h⟩
  result y hy := by cases List.mem_singleton.mp hy
  negation _ y hy := by cases List.mem_singleton.mp hy

theorem operandsChecked_product (texts : List Char → Prop) (x : Extended) :
    OperandsChecked texts [(.product, x)] where
  literal y hy := by cases List.mem_singleton.mp hy
  result y hy := by cases List.mem_singleton.mp hy
  negation _ y hy := by cases List.mem_singleton.mp hy

theorem operandsChecked_result (h : x.InBounds) : OperandsChecked texts [(.result, x)] where
  literal y hy := by cases List.mem_singleton.mp hy
  result y hy := by
    cases List.mem_singleton.mp hy
    exact h
  negation _ y hy := by cases List.mem_singleton.mp hy

theorem OperandsChecked.negate (h : OperandsChecked texts l)
    (hy : UncheckedInBounds l → y.InBounds) : OperandsChecked texts (l ++ [(.negation, y)]) where
  literal x hx := (List.mem_append.mp hx).elim (h.literal x) fun hx => by
    cases List.mem_singleton.mp hx
  result x hx := (List.mem_append.mp hx).elim (h.result x) fun hx => by
    cases List.mem_singleton.mp hx
  negation hunchecked x hx :=
    (List.mem_append.mp hx).elim (h.negation hunchecked.left x) fun hx => by
      cases List.mem_singleton.mp hx
      exact hy hunchecked.left

/-- All operands are within the range if the literals and the products are. -/
theorem OperandsChecked.inBounds_iff (h : OperandsChecked texts l) :
    (∀ e ∈ l, e.2.InBounds) ↔ UncheckedInBounds l := by
  constructor
  · exact fun hall x hx => hx.elim (hall _) (hall _)
  · rintro hunchecked ⟨origin, x⟩ hx
    cases origin with
    | literal => exact hunchecked x (Or.inl hx)
    | negation => exact h.negation hunchecked x hx
    | product => exact hunchecked x (Or.inr hx)
    | result => exact h.result x hx

end Checked

/-- The value is the decimal value, and its operands have been checked as far as there is a
check. -/
structure Traced.Sound (texts : List Char → Prop) (t : Traced) (v : Extended) : Prop where
  value_eq : t.value = v
  finite : ∃ d, v = .finite d
  checked : OperandsChecked texts t.operands
  inBounds : UncheckedInBounds t.operands → v.InBounds

/-- The record follows the calculator's arithmetic. -/
theorem traced_follows_decimals {size : Nat} {texts : List Char → Prop}
    (htexts : ∀ text, texts text → IsNumeral size text) :
    Arithmetic.traced.Follows .decimals (Traced.Sound texts) texts where
  number := by
    intro text v htext hv
    simp only [Arithmetic.decimals] at hv
    split at hv
    · next x hx =>
      cases hv
      obtain ⟨d, hd, _⟩ := sound_of_ofText? (htexts text htext) hx
      refine ⟨⟨v, [(.literal, v)]⟩, ?_, rfl, ⟨d, hd⟩, operandsChecked_literal htext hx,
        fun hunchecked => hunchecked v (Or.inl (List.mem_singleton_self _))⟩
      simp only [Arithmetic.traced, Arithmetic.decimals, hx, ok_bind]
    · cases hv
  negate := by
    rintro t _ w ⟨rfl, ⟨d, hd⟩, hchecked, hbounds⟩ hw
    have hnegated : negated t.value = .ok w := hw
    have hopposite : UncheckedInBounds t.operands → w.InBounds := by
      intro hunchecked
      have hvalue := hbounds hunchecked
      rw [hd] at hvalue hnegated
      exact inBounds_of_negated hvalue hnegated
    have hfinite : ∃ z, w = .finite z := by
      rw [hd] at hnegated
      obtain ⟨z, _, rfl⟩ := map_eq_ok.mp (mapError_eq_ok.mp hnegated)
      exact ⟨z, rfl⟩
    refine ⟨⟨w, t.operands ++ [(.negation, w)]⟩, ?_, rfl, hfinite, hchecked.negate hopposite,
      fun hunchecked => hopposite hunchecked.left⟩
    simp only [Arithmetic.traced, hnegated, ok_bind]
  apply := by
    rintro op t t' _ _ w ⟨rfl, _, hchecked, _⟩ ⟨rfl, _, hchecked', _⟩ hw
    obtain ⟨z, hz, rfl⟩ := map_eq_ok.mp hw
    have hbounds := inBounds_of_apply hz
    refine ⟨⟨.finite z, t.operands ++ t'.operands ++ [(.result, .finite z)]⟩, ?_, rfl, ⟨z, rfl⟩,
      (hchecked.append hchecked').append (operandsChecked_result hbounds), fun _ => hbounds⟩
    simp only [Arithmetic.traced, hz, ok_bind]
  percent := by
    rintro t _ w ⟨rfl, _, hchecked, _⟩ hw
    obtain ⟨z, hz, rfl⟩ := map_eq_ok.mp hw
    have hbounds := inBounds_of_settle hz
    refine ⟨⟨.finite z, t.operands ++ [(.result, .finite z)]⟩, ?_, rfl, ⟨z, rfl⟩,
      hchecked.append (operandsChecked_result hbounds), fun _ => hbounds⟩
    simp only [Arithmetic.traced, hz, ok_bind]
  percentOf := by
    rintro t t' _ _ w ⟨rfl, _, hchecked, _⟩ ⟨rfl, _, hchecked', _⟩ hw
    obtain ⟨z, hz, rfl⟩ := map_eq_ok.mp hw
    have hbounds := inBounds_of_settle hz
    obtain ⟨product, hproduct⟩ : ∃ p, calculator.mul t.value t'.value = .ok p := by
      unfold percentOf at hz
      cases hmul : calculator.mul t.value t'.value with
      | ok p => exact ⟨p, rfl⟩
      | error s =>
        rw [hmul] at hz
        cases hz
    have hlast : OperandsChecked texts [(.product, product), (.result, .finite z)] :=
      (operandsChecked_product texts product).append (operandsChecked_result hbounds)
    refine ⟨⟨.finite z, t.operands ++ t'.operands ++ [(.product, product), (.result, .finite z)]⟩,
      ?_, rfl, ⟨z, rfl⟩, (hchecked.append hchecked').append hlast, fun _ => hbounds⟩
    simp only [Arithmetic.traced, hproduct, Except.mapError, hz, ok_bind]

/-! ### Literals -/

section Literals

variable {x y t : Traced} {w : Option Traced}

theorem operands_subset_signed {minus : Bool} (h : Arithmetic.traced.signed minus x = .ok t) :
    x.operands ⊆ t.operands := by
  cases minus with
  | false =>
    cases h
    exact List.Subset.refl _
  | true =>
    obtain ⟨_, _, h⟩ := bind_eq_ok.mp h
    cases h
    exact List.subset_append_left _ _

theorem operands_subset_percent (h : Arithmetic.traced.percent x = .ok t) :
    x.operands ⊆ t.operands := by
  obtain ⟨_, _, h⟩ := bind_eq_ok.mp h
  cases h
  exact List.subset_append_left _ _

theorem operands_subset_marked {k : Nat} (h : Arithmetic.traced.marked w x k = .ok t) :
    x.operands ⊆ t.operands := by
  induction k generalizing t with
  | zero =>
    cases h
    exact List.Subset.refl _
  | succ k ih =>
    cases k with
    | zero =>
      cases w with
      | none => exact operands_subset_percent h
      | some whole =>
        obtain ⟨_, _, h⟩ := bind_eq_ok.mp h
        obtain ⟨_, _, h⟩ := bind_eq_ok.mp h
        cases h
        exact fun e he => List.mem_append_left _ (List.mem_append_right _ he)
    | succ k =>
      obtain ⟨y, hy, h⟩ := bind_eq_ok.mp h
      exact List.Subset.trans (ih hy) (operands_subset_percent h)

theorem operands_subset_apply {op : Operator} (h : Arithmetic.traced.apply op x y = .ok t) :
    x.operands ⊆ t.operands ∧ y.operands ⊆ t.operands := by
  obtain ⟨_, _, h⟩ := bind_eq_ok.mp h
  cases h
  exact ⟨fun e he => List.mem_append_left _ (List.mem_append_left _ he),
    fun e he => List.mem_append_left _ (List.mem_append_right _ he)⟩

end Literals

/-- The number is one of the operands. -/
def Traced.Reads (t : Traced) (text : List Char) : Prop :=
  ∃ x, Extended.ofText? text = some x ∧ (Origin.literal, x) ∈ t.operands

theorem allNumbers_reads_mono {t t' : Traced} {ts : List Token} (h : AllNumbers t.Reads ts)
    (hsubset : t.operands ⊆ t'.operands) : AllNumbers t'.Reads ts := by
  intro text htext
  obtain ⟨x, hx, hmem⟩ := h text htext
  exact ⟨x, hx, hsubset hmem⟩

theorem signToken_ne_number (minus : Bool) (text : List Char) :
    Token.number text ≠ signToken minus := by
  intro h
  cases minus <;> cases h

mutual

/-- Every number of a tree is read. -/
theorem Expr.reads_of_value : ∀ (e : Expr) {t : Traced}, e.value .traced = .ok t →
    AllNumbers t.Reads e.tokens
  | .single t, _, h => t.reads_of_value h
  | .chain e minus t, _, h => by
    obtain ⟨x, hx, h⟩ := bind_eq_ok.mp h
    obtain ⟨_, _, h⟩ := bind_eq_ok.mp h
    obtain ⟨y, hy, h⟩ := bind_eq_ok.mp h
    obtain ⟨hleft, hright⟩ := operands_subset_apply h
    have hfirst := allNumbers_reads_mono (e.reads_of_value hx) hleft
    have hsecond := allNumbers_reads_mono (t.reads_of_value hy) hright
    exact hfirst.append (hsecond.cons (signToken_ne_number minus))

theorem Term.reads_of_value : ∀ (t : Term) {w : Option Traced} {v : Traced},
    t.value .traced w = .ok v → AllNumbers v.Reads t.tokens
  | .single f, _, _, h => f.reads_of_value h
  | .chain t op f, _, _, h => by
    obtain ⟨x, hx, h⟩ := bind_eq_ok.mp h
    obtain ⟨y, hy, h⟩ := bind_eq_ok.mp h
    obtain ⟨hleft, hright⟩ := operands_subset_apply h
    have hfirst := allNumbers_reads_mono (t.reads_of_value hx) hleft
    have hsecond := allNumbers_reads_mono (f.reads_of_value hy) hright
    exact hfirst.append (hsecond.cons fun _ h => by cases op <;> cases h)

theorem Factor.reads_of_value : ∀ (f : Factor) {w : Option Traced} {v : Traced},
    f.value .traced w = .ok v → AllNumbers v.Reads f.tokens
  | .signed minus f, _, _, h => by
    obtain ⟨x, hx, h⟩ := bind_eq_ok.mp h
    have hread := allNumbers_reads_mono (f.reads_of_value hx) (operands_subset_signed h)
    exact hread.cons (signToken_ne_number minus)
  | .plain x percents, _, _, h => by
    obtain ⟨y, hy, h⟩ := bind_eq_ok.mp h
    have hread := allNumbers_reads_mono (x.reads_of_value hy) (operands_subset_marked h)
    exact hread.append fun _ htext => by cases List.eq_of_mem_replicate htext

theorem Primary.reads_of_value : ∀ (x : Primary) {t : Traced}, x.value .traced = .ok t →
    AllNumbers t.Reads x.tokens
  | .number text, _, h => by
    obtain ⟨v, hv, h⟩ := bind_eq_ok.mp h
    cases h
    simp only [Arithmetic.decimals] at hv
    split at hv
    · next x hx =>
      cases hv
      intro text' htext'
      cases List.mem_singleton.mp htext'
      exact ⟨v, hx, List.mem_singleton_self _⟩
    · cases hv
  | .group e, t, h => by
    have hclosing : AllNumbers t.Reads [.closing] := fun _ htext => by
      cases List.mem_singleton.mp htext
    exact ((e.reads_of_value h).append hclosing).cons fun _ h => by cases h

end

theorem number_mem_resolvePercents {text : List Char} {ts : List Token} :
    Token.number text ∈ resolvePercents ts ↔ Token.number text ∈ ts := by
  induction ts with
  | nil => exact Iff.rfl
  | cons t ts ih =>
    rw [resolvePercents, List.mem_cons, List.mem_cons, ih]
    split
    · next h =>
      have hkind : t.kind = .percent := by simpa using (Bool.and_eq_true_iff.mp h).1
      have hmodulus : Token.number text ≠ .modulus := fun h => by cases h
      have hpercent : Token.number text ≠ t := fun h => by
        rw [← h] at hkind
        cases hkind
      rw [or_iff_right hmodulus, or_iff_right hpercent]
    · exact Iff.rfl

/-! ### Texts -/

/-- A text that has a value has a tree, and its value is computed from operands. The literals among
them are the numbers of the text, and the outcomes of operations and percent signs are within the
range. All operands are if and only if the numbers are and the products that a hundredth is taken
of. -/
theorem operands_inBounds_iff {limits : Limits} {text : List Char} {ts : List Token} {d : Decimal}
    (htokens : tokenize limits.length text = .ok ts) (hvalue : evaluate limits text = .ok d) :
    ∃ (e : Expr) (t : Traced), e.tokens = resolvePercents ts ∧ e.value .traced = .ok t ∧
      compute limits.nesting (resolvePercents ts) = .ok t.value ∧ inRange t.value = .ok d ∧
      (∀ x, (Origin.literal, x) ∈ t.operands ↔
        ∃ number, Token.number number ∈ ts ∧ Extended.ofText? number = some x) ∧
      (∀ x, (Origin.result, x) ∈ t.operands → x.InBounds) ∧
      ((∀ o ∈ t.operands, o.2.InBounds) ↔
        (∀ number x, Token.number number ∈ ts → Extended.ofText? number = some x → x.InBounds) ∧
          ∀ x, (Origin.product, x) ∈ t.operands → x.InBounds) := by
  rw [evaluate, htokens, ok_bind] at hvalue
  obtain ⟨_, _, hvalue⟩ := bind_eq_ok.mp hvalue
  obtain ⟨v, hv, hrange⟩ := bind_eq_ok.mp hvalue
  have hcompute := mapError_eq_ok.mp hv
  obtain ⟨e, he, hdepth⟩ := exists_of_compute (isSpelled_of_tokenize htokens) hcompute
  have hdecimal : e.value .decimals = .ok v := by
    rw [← compute_tokens hdepth, he]
    exact hcompute
  have hnumerals : AllNumbers (fun number => Token.number number ∈ ts ∧
      IsNumeral text.length number) e.tokens := by
    intro number hnumber
    rw [he] at hnumber
    exact ⟨number_mem_resolvePercents.mp hnumber, isNumeral_of_tokenize htokens number hnumber⟩
  obtain ⟨t, ht, rfl, _, hchecked, _⟩ :=
    e.value_follows (traced_follows_decimals fun _ h => h.2) hnumerals hdecimal
  have hliteral : ∀ x, (Origin.literal, x) ∈ t.operands ↔
      ∃ number, Token.number number ∈ ts ∧ Extended.ofText? number = some x := by
    intro x
    constructor
    · intro hx
      obtain ⟨number, ⟨hnumber, _⟩, hread⟩ := hchecked.literal x hx
      exact ⟨number, hnumber, hread⟩
    · rintro ⟨number, hnumber, hread⟩
      rw [← number_mem_resolvePercents, ← he] at hnumber
      obtain ⟨y, hy, hmem⟩ := e.reads_of_value ht number hnumber
      rw [hread] at hy
      cases hy
      exact hmem
  refine ⟨e, t, he, ht, hcompute, hrange, hliteral, hchecked.result, ?_⟩
  rw [hchecked.inBounds_iff]
  constructor
  · intro hunchecked
    exact ⟨fun number x hnumber hread =>
        hunchecked x (Or.inl ((hliteral x).mpr ⟨number, hnumber, hread⟩)),
      fun x hx => hunchecked x (Or.inr hx)⟩
  · rintro ⟨hnumbers, hproducts⟩ x (hx | hx)
    · obtain ⟨number, hnumber, hread⟩ := (hliteral x).mp hx
      exact hnumbers number x hnumber hread
    · exact hproducts x hx

/-- A power of ten, which is within the bound up to the exponent 308. -/
def powerText (exponent : Nat) : List Char := '1' :: List.replicate exponent '0'

theorem not_inBounds_of_inRange {x : Extended} (h : inRange x = .error .outOfRange) :
    ¬ x.InBounds := by
  rintro ⟨y, hy⟩
  rw [h] at hy
  cases hy

theorem powerText_beyond :
    Extended.ofText? (powerText 309) = some (.finite (.ofNat (10 ^ 309))) ∧
      ¬ (Extended.finite (.ofNat (10 ^ 309))).InBounds :=
  ⟨by decide +kernel, not_inBounds_of_inRange (by decide +kernel)⟩

theorem operands_inBounds_iff_of_quotient :
    ∃ (e : Expr) (t : Traced),
      e.tokens = [.number (powerText 309), .operator '/', .number (powerText 309)] ∧
      e.value .traced = .ok t ∧ inRange t.value = .ok ⟨false, 1, 0⟩ ∧
      ¬ ∀ o ∈ t.operands, o.2.InBounds := by
  have htokens : tokenize Limits.standard.length (powerText 309 ++ '/' :: powerText 309) =
      .ok [.number (powerText 309), .operator '/', .number (powerText 309)] :=
    toOption_eq_some.mp (by decide +kernel)
  have hvalue : evaluate .standard (powerText 309 ++ '/' :: powerText 309) = .ok ⟨false, 1, 0⟩ := by
    decide +kernel
  obtain ⟨e, t, he, ht, _, hrange, _, _, hiff⟩ := operands_inBounds_iff htokens hvalue
  refine ⟨e, t, he.trans (by decide +kernel), ht, hrange, fun hall => ?_⟩
  exact powerText_beyond.2 ((hiff.mp hall).1 _ _ (List.mem_cons_self ..) powerText_beyond.1)

/-- Two numbers beyond the bound have the quotient one. A number within the bound and half of it
have a sum within the bound, and the half is taken from a product beyond it. -/
theorem operands_return_to_range :
    (tokenize Limits.standard.length (powerText 309 ++ '/' :: powerText 309) =
        .ok [.number (powerText 309), .operator '/', .number (powerText 309)] ∧
      evaluate .standard (powerText 309 ++ '/' :: powerText 309) = .ok ⟨false, 1, 0⟩ ∧
      ∃ x, Extended.ofText? (powerText 309) = some x ∧ ¬ x.InBounds) ∧
    (evaluate .standard (powerText 308 ++ "+50%".toList) = .ok ⟨false, 15 * 10 ^ 26, 281⟩ ∧
      ∃ product, calculator.mul (.finite (.ofNat (10 ^ 308))) (.finite (.ofNat 50)) = .ok product ∧
        ¬ product.InBounds) := by
  have hproduct : calculator.mul (.finite (.ofNat (10 ^ 308))) (.finite (.ofNat 50)) =
      .ok (.finite ⟨false, 5 * 10 ^ 27, 282⟩) := by decide +kernel
  refine ⟨⟨toOption_eq_some.mp ?_, ?_, _, powerText_beyond⟩, ?_, _, hproduct,
    not_inBounds_of_inRange ?_⟩
  · decide +kernel
  · decide +kernel
  · decide +kernel
  · decide +kernel

end PocketCalculator
