import PocketCalculator.Proofs.Decimal.Exact
import PocketCalculator.Proofs.Expression.Evaluation
import PocketCalculator.Proofs.Expression.Literal
import PocketCalculator.Proofs.Expression.Operation

/-!
# Exact evaluation

As long as every literal and every result is representable, an expression has the value that its
tree has in the rational numbers.
-/

namespace PocketCalculator

/-! ### Rational arithmetic -/

def literalValue (text : List Char) : ℚ :=
  digitsValue (literalDigits text) / 10 ^ literalPlaces text

open Classical in
noncomputable def within (q : ℚ) : Except Unit ℚ := if Representable q then .ok q else .error ()

noncomputable def Operator.exact : Operator → ℚ → ℚ → Except Unit ℚ
  | .add, x, y => within (x + y)
  | .sub, x, y => within (x - y)
  | .mul, x, y => within (x * y)
  | .div, x, y => if y = 0 then .error () else within (x / y)
  | .rem, x, y => if y = 0 then .error () else within (x - y * truncate (x / y))

/-- The arithmetic of the rational numbers. It fails where a literal is not written in decimal
digits, where a divisor is zero and where a result is not representable. -/
noncomputable def Arithmetic.rationals : Arithmetic Unit ℚ where
  number text := if text.all isLiteralChar = true then within (literalValue text) else .error ()
  negate x := within (-x)
  apply op x y := op.exact x y
  percent x := within (x / 100)
  percentOf whole x := do within ((← within (whole * x)) / 100)

theorem within_eq_ok {q r : ℚ} : within q = .ok r ↔ Representable q ∧ r = q := by
  unfold within
  by_cases h : Representable q
  · rw [if_pos h, Except.ok.injEq]
    constructor
    · intro hqr
      exact ⟨h, hqr.symm⟩
    · rintro ⟨_, rfl⟩
      rfl
  · rw [if_neg h]
    constructor
    · intro hqr
      cases hqr
    · rintro ⟨hq, _⟩
      exact absurd hq h

theorem within_of_representable {q : ℚ} (h : Representable q) : within q = .ok q :=
  within_eq_ok.mpr ⟨h, rfl⟩

/-- Whole numbers of at most 28 digits are representable. -/
theorem representable_intCast {n : ℤ} (h : n.natAbs < 10 ^ 28) : Representable (n : ℚ) := by
  by_cases hzero : n = 0
  · left
    exact_mod_cast hzero
  · right
    have habs : |(n : ℚ)| = (n.natAbs : ℕ) := by rw [Nat.cast_natAbs, Int.cast_abs]
    have hone : 1 ≤ n.natAbs := by omega
    refine ⟨⟨n.natAbs, 0, h, by rw [habs, zpow_zero, mul_one]⟩, ?_, ?_⟩
    · have hpow : (10 : ℚ) ^ Context.minExponent ≤ 1 :=
        zpow_le_one_of_nonpos₀ (by norm_num) (by decide)
      rw [habs]
      exact hpow.trans (by exact_mod_cast hone)
    · have hle : n.natAbs ≤ largest.coefficient :=
        (le_of_lt h).trans (by decide +kernel)
      have hlargest : largest.magnitude = largest.coefficient := by
        simp only [Decimal.magnitude, largest, Decimal.ofNat, zpow_zero, mul_one]
      rw [habs, hlargest]
      exact Nat.cast_le.mpr hle

theorem within_intCast {n : ℤ} (h : n.natAbs < 10 ^ 28) : within (n : ℚ) = .ok (n : ℚ) :=
  within_of_representable (representable_intCast h)

theorem literalValue_of_isDecimalDigit {text : List Char}
    (h : ∀ c ∈ text, isDecimalDigit c = true) : literalValue text = digitsValue text := by
  rw [literalValue, literalPlaces_whole h, literalDigits, filter_point h, pow_zero, div_one]

theorem number_of_isDecimalDigit {text : List Char} (h : text.all isDecimalDigit = true)
    (hvalue : digitsValue text < 10 ^ 28) :
    Arithmetic.rationals.number text = .ok ((digitsValue text : ℤ) : ℚ) := by
  have hdigits := List.all_eq_true.mp h
  have hchars : text.all isLiteralChar = true := List.all_eq_true.mpr fun c hc =>
    Bool.or_eq_true_iff.mpr (Or.inl (hdigits c hc))
  simp only [Arithmetic.rationals, if_pos hchars]
  rw [literalValue_of_isDecimalDigit hdigits, ← Int.cast_natCast (digitsValue text)]
  exact within_intCast hvalue

/-! ### Operands -/

/-- The decimal is the number `q`, which is representable, and it has a place in the range. -/
structure Decimal.Denotes (x : Decimal) (q : ℚ) : Prop where
  toRat_eq : x.toRat = q
  representable : Representable q
  adjusted_le : x.adjusted ≤ Context.maxExponent

def Extended.Denotes (x : Extended) (q : ℚ) : Prop := ∃ d : Decimal, x = .finite d ∧ d.Denotes q

section Operands

variable {x y : Decimal} {p q r : ℚ} {result : Except Signal Decimal}

theorem Decimal.Denotes.isZero_eq_false (h : x.Denotes q) (hq : q ≠ 0) : x.isZero = false := by
  rw [Decimal.isZero_eq_false, h.toRat_eq]
  exact hq

theorem Decimal.Denotes.le_adjusted (h : x.Denotes q) (hq : q ≠ 0) :
    Context.minExponent ≤ x.adjusted := by
  obtain hzero | ⟨_, hmin, _⟩ := h.representable
  · exact absurd hzero hq
  rw [← h.toRat_eq, Decimal.abs_toRat] at hmin
  have := Decimal.lt_of_ten_zpow_lt (hmin.trans_lt x.magnitude_lt)
  omega

theorem Decimal.adjusted_le_of_representable (h : Representable x.toRat) (hx : x.isZero = false) :
    x.adjusted ≤ 308 := by
  obtain hzero | ⟨_, _, hmax⟩ := h
  · exact absurd hzero ((Decimal.isZero_eq_false x).mp hx)
  rw [Decimal.abs_toRat] at hmax
  have := Decimal.lt_of_ten_zpow_lt
    (((Decimal.le_magnitude hx).trans hmax).trans_lt largest_magnitude_lt)
  omega

/-! ### Operations -/

theorem Representable.abs_le (h : Representable q) : |q| ≤ largest.magnitude := by
  obtain rfl | ⟨_, _, hmax⟩ := h
  · rw [abs_zero]
    exact largest.magnitude_nonneg
  · exact hmax

theorem exists_inRange (h : Representable x.toRat) :
    ∃ y, inRange (.finite x) = .ok y ∧ y.Denotes x.toRat := by
  have hplus : ∃ y, calculator.plus x = .ok y ∧ y.toRat = x.toRat := by
    unfold Context.plus
    cases hx : x.isZero with
    | true =>
      have habs := Decimal.toRat_abs_of_isZero hx
      rw [← habs] at h ⊢
      exact Context.exists_round_of_representable (by decide) h
    | false => exact Context.exists_round_of_representable (by decide) h
  obtain ⟨y, hy, hvalue⟩ := hplus
  have hexceeds : y.exceeds largest = false := by
    rw [← Bool.not_eq_true, Decimal.exceeds_iff_lt, not_lt, ← Decimal.abs_toRat y, hvalue]
    exact h.abs_le
  have hrange := inRange_eq_ok.mpr ⟨hy, hexceeds⟩
  exact ⟨y, hrange, hvalue, h, (contains_of_inRange hrange).adjusted_le⟩

theorem exists_settle (hx : result = .ok x) (h : Representable x.toRat) :
    ∃ y, settle (.finite <$> result) = .ok y ∧ y.Denotes x.toRat := by
  obtain ⟨y, hy, hdenotes⟩ := exists_inRange h
  exact ⟨y, settle_finite_eq_ok.mpr ⟨x, hx, hy⟩, hdenotes⟩

theorem Operator.divisor_of_exact {op : Operator} (hdivides : op.divides = true)
    (h : op.exact p q = .ok r) : q ≠ 0 := by
  rintro rfl
  cases op with
  | add => cases hdivides
  | sub => cases hdivides
  | mul => cases hdivides
  | div =>
    simp only [Operator.exact, if_true] at h
    cases h
  | rem =>
    simp only [Operator.exact, if_true] at h
    cases h

/-- An operation with an exact result finds it. -/
theorem Operator.rounded_exact {op : Operator} (hx : x.Denotes p) (hy : y.Denotes q)
    (h : op.exact p q = .ok r) : Representable r ∧ ∃ z, op.rounded x y = .ok z ∧ z.toRat = r := by
  have hround : ∀ {x : Decimal}, Representable x.toRat →
      ∃ z, calculator.round x = .ok z ∧ z.toRat = x.toRat :=
    Context.exists_round_of_representable (by decide)
  cases op with
  | add =>
    obtain ⟨hr, rfl⟩ := within_eq_ok.mp h
    rw [← hx.toRat_eq, ← hy.toRat_eq, ← Decimal.toRat_add] at hr ⊢
    exact ⟨hr, hround hr⟩
  | sub =>
    obtain ⟨hr, rfl⟩ := within_eq_ok.mp h
    rw [← hx.toRat_eq, ← hy.toRat_eq, sub_eq_add_neg, ← Decimal.toRat_flip,
      ← Decimal.toRat_add] at hr ⊢
    exact ⟨hr, hround hr⟩
  | mul =>
    obtain ⟨hr, rfl⟩ := within_eq_ok.mp h
    rw [← hx.toRat_eq, ← hy.toRat_eq, ← Decimal.toRat_mul] at hr ⊢
    exact ⟨hr, hround hr⟩
  | div =>
    have hq := Operator.divisor_of_exact rfl h
    simp only [Operator.exact, if_neg hq] at h
    obtain ⟨hr, rfl⟩ := within_eq_ok.mp h
    rw [← hx.toRat_eq, ← hy.toRat_eq] at hr ⊢
    exact ⟨hr, Context.exists_divide_of_representable (by decide) (hy.isZero_eq_false hq) hr⟩
  | rem =>
    have hq := Operator.divisor_of_exact rfl h
    simp only [Operator.exact, if_neg hq] at h
    obtain ⟨hr, rfl⟩ := within_eq_ok.mp h
    rw [← hx.toRat_eq, ← hy.toRat_eq, ← Decimal.toRat_rem (hy.isZero_eq_false hq)] at hr ⊢
    have hlow := hy.le_adjusted hq
    have hhigh := hx.adjusted_le
    simp only [Context.minExponent, Context.maxExponent] at hlow hhigh
    have hroom : x.adjusted - y.adjusted + 30 ≤ Context.maxPrecision := by
      simp only [Context.maxPrecision]
      omega
    obtain ⟨c, hc, hprecision⟩ := exists_remainderContext hroom
    obtain ⟨z, hz, hvalue⟩ := Context.exists_round_of_representable hprecision hr
    exact ⟨hr, z, bind_eq_ok.mpr ⟨c, hc, hz⟩, hvalue⟩

theorem exists_apply {op : Operator} (hx : x.Denotes p) (hy : y.Denotes q)
    (h : op.exact p q = .ok r) :
    ∃ z, op.apply (.finite x) (.finite y) = .ok z ∧ z.Denotes r := by
  have hdivisor : op.divides = true → y.isZero = false := fun hdivides =>
    hy.isZero_eq_false (Operator.divisor_of_exact hdivides h)
  obtain ⟨hr, z, hz, rfl⟩ := Operator.rounded_exact hx hy h
  rw [Operator.apply_finite hdivisor]
  exact exists_settle hz hr

theorem exists_negated (hx : x.Denotes p) (hr : Representable (-p)) :
    ∃ z, negated (.finite x) = .ok (.finite z) ∧ z.Denotes (-p) := by
  have hminus : ∃ z, calculator.minus x = .ok z ∧ z.toRat = -p := by
    unfold Context.minus
    split
    · next hzero =>
      have habs := Decimal.toRat_abs_of_isZero hzero
      have hp : -p = x.abs.toRat := by
        rw [habs, ← hx.toRat_eq, (Decimal.isZero_iff x).mp hzero, neg_zero]
      rw [hp] at hr ⊢
      exact Context.exists_round_of_representable (by decide) hr
    · rw [← hx.toRat_eq, ← Decimal.toRat_flip] at hr ⊢
      exact Context.exists_round_of_representable (by decide) hr
  obtain ⟨z, hz, hvalue⟩ := hminus
  have hcontains : calculator.Contains z := Context.contains_of_round (by decide) hz
  refine ⟨z, ?_, hvalue, hr, hcontains.adjusted_le⟩
  unfold negated Context.negate
  simp only [hz, ok_map]
  rfl

theorem exists_percent (hx : x.toRat = p) (hr : Representable (p / 100)) :
    ∃ z, percent (.finite x) = .ok z ∧ z.Denotes (p / 100) := by
  have hhundred : (Decimal.ofNat 100).toRat = 100 := by
    simp [Decimal.toRat, Decimal.magnitude, Decimal.ofNat]
  rw [← hx, ← hhundred] at hr ⊢
  obtain ⟨z, hz, hvalue⟩ := Context.exists_divide_of_representable (c := calculator) (by decide)
    (show (Decimal.ofNat 100).isZero = false by decide) hr
  rw [← hvalue] at hr ⊢
  exact exists_settle hz hr

theorem exists_percentOf (hx : x.Denotes p) (hy : y.Denotes q) (hmul : Representable (p * q))
    (hr : Representable (p * q / 100)) :
    ∃ z, percentOf (.finite x) (.finite y) = .ok z ∧ z.Denotes (p * q / 100) := by
  rw [← hx.toRat_eq, ← hy.toRat_eq, ← Decimal.toRat_mul] at hmul hr ⊢
  obtain ⟨w, hw, hvalue⟩ := Context.exists_round_of_representable (c := calculator) (by decide) hmul
  obtain ⟨z, hz, hdenotes⟩ := exists_percent hvalue hr
  refine ⟨z, ?_, hdenotes⟩
  unfold percentOf
  rw [Context.mul_finite, hw]
  exact hz

theorem toRat_literal (text : List Char) : (literal text).toRat = literalValue text := by
  simp only [Decimal.toRat, Decimal.magnitude, literal, fixedDecimal, literalValue,
    Bool.false_eq_true, if_false, zpow_neg, zpow_natCast, div_eq_mul_inv]

theorem exists_literal {size : Nat} {text : List Char}
    (hsize : (size : ℤ) ≤ -Decimal.lowestExponent) (h : IsNumeral size text)
    (hchars : ∀ c ∈ text, isLiteralChar c = true) (hr : Representable (literalValue text)) :
    Extended.ofText? text = some (.finite (literal text)) ∧
      (literal text).Denotes (literalValue text) := by
  have hvalue := toRat_literal text
  have hplaces := literalPlaces_le text
  have hlength := h.length_le
  have hexponent : (literal text).exponent = -(literalPlaces text : ℤ) := rfl
  have hadjusted : (literal text).adjusted ≤ 308 := by
    cases hzero : (literal text).isZero with
    | true =>
      have hdigits : (literal text).digits = 1 := by
        rw [Decimal.digits, beq_iff_eq.mp hzero, Decimal.digitCount_zero]
      simp only [Decimal.adjusted, hdigits, hexponent]
      omega
    | false =>
      rw [← hvalue] at hr
      exact Decimal.adjusted_le_of_representable hr hzero
  refine ⟨ofText?_literal h hchars ?_, hvalue, hr, hadjusted.trans (by decide)⟩
  unfold Decimal.isStorable
  rw [Bool.and_eq_true, decide_eq_true_eq, decide_eq_true_eq]
  simp only [Decimal.highestExponent]
  omega

end Operands

/-- The calculator's arithmetic follows that of the rationals. -/
theorem decimals_follow_rationals {size : Nat} (hsize : (size : ℤ) ≤ -Decimal.lowestExponent) :
    Arithmetic.decimals.Follows .rationals Extended.Denotes (IsNumeral size) where
  number := by
    intro text q htext hq
    simp only [Arithmetic.rationals] at hq
    split at hq
    · next hchars =>
      obtain ⟨hr, rfl⟩ := within_eq_ok.mp hq
      obtain ⟨hread, hdenotes⟩ := exists_literal hsize htext (List.all_eq_true.mp hchars) hr
      refine ⟨.finite (literal text), ?_, literal text, rfl, hdenotes⟩
      simp only [Arithmetic.decimals, hread]
    · cases hq
  negate := by
    rintro _ p r ⟨x, rfl, hx⟩ h
    obtain ⟨hr, rfl⟩ := within_eq_ok.mp h
    obtain ⟨z, hz, hdenotes⟩ := exists_negated hx hr
    exact ⟨.finite z, hz, z, rfl, hdenotes⟩
  apply := by
    rintro op _ _ p q r ⟨x, rfl, hx⟩ ⟨y, rfl, hy⟩ h
    obtain ⟨z, hz, hdenotes⟩ := exists_apply hx hy h
    exact ⟨.finite z, map_eq_ok.mpr ⟨z, hz, rfl⟩, z, rfl, hdenotes⟩
  percent := by
    rintro _ p r ⟨x, rfl, hx⟩ h
    obtain ⟨hr, rfl⟩ := within_eq_ok.mp h
    obtain ⟨z, hz, hdenotes⟩ := exists_percent hx.toRat_eq hr
    exact ⟨.finite z, map_eq_ok.mpr ⟨z, hz, rfl⟩, z, rfl, hdenotes⟩
  percentOf := by
    rintro _ _ p q r ⟨x, rfl, hx⟩ ⟨y, rfl, hy⟩ h
    obtain ⟨w, hw, h⟩ := bind_eq_ok.mp h
    obtain ⟨hmul, rfl⟩ := within_eq_ok.mp hw
    obtain ⟨hr, rfl⟩ := within_eq_ok.mp h
    obtain ⟨z, hz, hdenotes⟩ := exists_percentOf hx hy hmul hr
    exact ⟨.finite z, map_eq_ok.mpr ⟨z, hz, rfl⟩, z, rfl, hdenotes⟩

/-- If every operation of a text's tree has an exact result that the calculator can represent, then
the text has the exact value of the tree. The text must not be so long that an exponent, which is
held in a word, could not count its digits. -/
theorem evaluate_exact {limits : Limits} {text : List Char} {ts : List Token} {e : Expr} {q : ℚ}
    (hlength : (text.length : ℤ) ≤ -Decimal.lowestExponent)
    (htokens : tokenize limits.length text = .ok ts)
    (htree : e.tokens = resolvePercents ts) (hdepth : e.depth ≤ limits.nesting)
    (hvalue : e.value .rationals = .ok q) :
    ∃ d, evaluate limits text = .ok d ∧ d.toRat = q := by
  have hnumerals : AllNumbers (IsNumeral text.length) e.tokens := by
    rw [htree]
    exact isNumeral_of_tokenize htokens
  obtain ⟨_, hdecimal, x, rfl, hx⟩ :=
    e.value_follows (decimals_follow_rationals hlength) hnumerals hvalue
  have hcompute : compute limits.nesting (resolvePercents ts) = .ok (.finite x) := by
    rw [← htree, compute_tokens hdepth, hdecimal]
  obtain ⟨d, hd, hdenotes⟩ := exists_inRange (x := x) (by
    rw [hx.toRat_eq]
    exact hx.representable)
  refine ⟨d, ?_, hdenotes.toRat_eq.trans hx.toRat_eq⟩
  unfold evaluate
  rw [htokens, ok_bind, checkParentheses_of_tokens htree, ok_bind, hcompute]
  exact hd

/-- The percent sign refers to the four before the minus. -/
theorem evaluate_exact_percent :
    ∃ d, evaluate .standard "7 mod 4-50%".toList = .ok d ∧ d.toRat = (1 : ℤ) := by
  have hseven : Arithmetic.rationals.number ['7'] = .ok ((7 : ℤ) : ℚ) :=
    number_of_isDecimalDigit (by decide) (by decide)
  have hfour : Arithmetic.rationals.number ['4'] = .ok ((4 : ℤ) : ℚ) :=
    number_of_isDecimalDigit (by decide) (by decide)
  have hfifty : Arithmetic.rationals.number ['5', '0'] = .ok ((50 : ℤ) : ℚ) :=
    number_of_isDecimalDigit (by decide) (by decide)
  have hthree : Operator.rem.exact ((7 : ℤ) : ℚ) ((4 : ℤ) : ℚ) = .ok ((3 : ℤ) : ℚ) := by
    have htruncate : truncate (((7 : ℤ) : ℚ) / (4 : ℤ)) = 1 := truncate_natCast_div 7 4
    rw [Operator.exact, if_neg (by norm_num), htruncate, ← Int.cast_mul, ← Int.cast_sub]
    exact within_intCast (by decide)
  have htwo : Arithmetic.rationals.percentOf ((4 : ℤ) : ℚ) ((50 : ℤ) : ℚ) = .ok ((2 : ℤ) : ℚ) := by
    have hproduct : within (((4 : ℤ) : ℚ) * (50 : ℤ)) = .ok ((200 : ℤ) : ℚ) := by
      rw [← Int.cast_mul]
      exact within_intCast (by decide)
    have hhundredth : within (((200 : ℤ) : ℚ) / 100) = .ok ((2 : ℤ) : ℚ) := by
      rw [show ((200 : ℤ) : ℚ) / 100 = (2 : ℤ) by norm_num]
      exact within_intCast (by decide)
    exact bind_eq_ok.mpr ⟨_, hproduct, hhundredth⟩
  have hone : Operator.sub.exact ((3 : ℤ) : ℚ) ((2 : ℤ) : ℚ) = .ok ((1 : ℤ) : ℚ) := by
    rw [Operator.exact, ← Int.cast_sub]
    exact within_intCast (by decide)
  have hmodulo : (Term.chain (.single (.plain (.number ['7']) 0)) .modulo
      (.plain (.number ['4']) 0)).value .rationals none = .ok ((3 : ℤ) : ℚ) :=
    bind_eq_ok.mpr ⟨_, bind_eq_ok.mpr ⟨_, hseven, rfl⟩,
      bind_eq_ok.mpr ⟨_, bind_eq_ok.mpr ⟨_, hfour, rfl⟩, hthree⟩⟩
  have hpercent : (Term.single (.plain (.number ['5', '0']) 1)).value .rationals
      (some ((4 : ℤ) : ℚ)) = .ok ((2 : ℤ) : ℚ) :=
    bind_eq_ok.mpr ⟨_, hfifty, htwo⟩
  have htokens : tokenize Limits.standard.length "7 mod 4-50%".toList =
      .ok [.number ['7'], .modulus, .number ['4'], .operator '-', .number ['5', '0'], .percent] :=
    toOption_eq_some.mp (by decide +kernel)
  refine evaluate_exact (e := .chain (.single (.chain (.single (.plain (.number ['7']) 0)) .modulo
    (.plain (.number ['4']) 0))) true (.single (.plain (.number ['5', '0']) 1)))
    (by decide) htokens rfl (by decide) ?_
  exact bind_eq_ok.mpr ⟨_, hmodulo, bind_eq_ok.mpr ⟨_, map_eq_ok.mpr ⟨_, hfour, rfl⟩,
    bind_eq_ok.mpr ⟨_, hpercent, hone⟩⟩⟩

end PocketCalculator
