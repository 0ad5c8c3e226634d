import PocketCalculator.Proofs.Display.Results
import PocketCalculator.Proofs.Expression.Exact
import PocketCalculator.Proofs.Expression.Lexemes

/-!
# Reading a number again

The text of a number is an expression, a literal with its sign (`tokenize_signedLiteral`). If the
number is one that the calculator represents, then its text is short (`NumberText.length_text_le`)
and has this number as its value (`NumberText.exists_evaluate`).
-/

namespace PocketCalculator

-- Powers are the core library's, also where other power instances are imported.
attribute [local instance (1200)] instPowNat

/-! ### Literals with a sign -/

/-- A literal with a minus in front, if negative. -/
def Expr.signedLiteral (negative : Bool) (body : List Char) : Expr :=
  .single (.single
    (if negative then .signed true (.plain (.number body) 0) else .plain (.number body) 0))

section SignedLiteral

variable {size : ℕ} {limits : Limits} {negative : Bool} {body text : List Char} {ts : List Token}

theorem scan_numeral (h : IsNumeral size body) : scan body = .ok [.number body] := by
  have hwritten : (Token.number body).WrittenAs body :=
    (Token.writtenAs_iff fun hmodulus => by cases hmodulus).mpr rfl
  have hend : EndsNumber (List.head? ([] : List Char)) := fun c hc => by cases hc
  rw [← List.append_nil body, scan_writtenAs (Token.isLexical_of_isNumeral h) hwritten
    fun _ => hend, scan, List.append_nil]
  rfl

theorem scan_sign_numeral (minus : Bool) (h : IsNumeral size body) :
    scan ((if minus then '-' else '+') :: body) = .ok [signToken minus, .number body] := by
  have hblank : isBlank (if minus then '-' else '+') = false := by cases minus <;> decide
  have htoken : takeToken (if minus then '-' else '+') body = .ok (signToken minus, body) := by
    cases minus <;> rfl
  rw [scan_cons hblank, htoken, ok_bind, scan_numeral h]
  rfl

theorem scan_signedLiteral (h : IsNumeral size body) :
    scan (Decimal.signText negative ++ body) = .ok (Expr.signedLiteral negative body).tokens := by
  cases negative with
  | false => exact scan_numeral h
  | true => exact scan_sign_numeral true h

theorem tokenize_signedLiteral {limit : ℕ} (h : IsNumeral size body)
    (hlimit : (Decimal.signText negative ++ body).length ≤ limit) :
    tokenize limit (Decimal.signText negative ++ body) =
      .ok (Expr.signedLiteral negative body).tokens := by
  have hne : (Decimal.signText negative ++ body).isEmpty = false :=
    List.isEmpty_eq_false_iff.mpr (List.append_ne_nil_of_right_ne_nil _ h.ne_nil)
  unfold tokenize
  simp only [normalizeText_signed h.chars, hne, Bool.false_eq_true, if_false,
    Nat.not_lt.mpr hlimit]
  exact scan_signedLiteral h

/-- A text fails as its tree does, or its value is that of the tree, brought into range. -/
theorem evaluate_eq_of_tree {e : Expr} (htokens : tokenize limits.length text = .ok ts)
    (htree : e.tokens = resolvePercents ts) (hdepth : e.depth ≤ limits.nesting) :
    evaluate limits text = (do
      let x ← (e.value .decimals).mapError Failure.toFault
      inRange x) := by
  unfold evaluate
  rw [htokens, ok_bind, checkParentheses_of_tokens htree, ok_bind, ← htree, compute_tokens hdepth]

theorem evaluate_of_tree {e : Expr} {x : Extended} (htokens : tokenize limits.length text = .ok ts)
    (htree : e.tokens = resolvePercents ts) (hdepth : e.depth ≤ limits.nesting)
    (hvalue : e.value .decimals = .ok x) : evaluate limits text = inRange x := by
  rw [evaluate_eq_of_tree htokens htree hdepth, hvalue]
  rfl

/-- A literal with its sign has the value that it writes. -/
theorem exists_evaluate_signedLiteral (negative : Bool)
    (hsize : (size : ℤ) ≤ -Decimal.lowestExponent) (h : IsNumeral size body)
    (hchars : ∀ c ∈ body, isLiteralChar c = true) (hr : Representable (literalValue body)) :
    ∃ d, d.toRat = (if negative then -literalValue body else literalValue body) ∧
      ∀ limits : Limits, (Decimal.signText negative ++ body).length ≤ limits.length →
        evaluate limits (Decimal.signText negative ++ body) = .ok d := by
  obtain ⟨hread, hdenotes⟩ := exists_literal hsize h hchars hr
  have hnumber : Arithmetic.decimals.number body = .ok (.finite (literal body)) := by
    simp only [Arithmetic.decimals, hread]
  have hvalue : ∃ z, (Expr.signedLiteral negative body).value .decimals = .ok (.finite z) ∧
      z.Denotes (if negative then -literalValue body else literalValue body) := by
    cases negative with
    | false => exact ⟨_, bind_eq_ok.mpr ⟨_, hnumber, rfl⟩, hdenotes⟩
    | true =>
      obtain ⟨z, hz, hdenotes⟩ := exists_negated hdenotes (representable_neg hr)
      exact ⟨z, bind_eq_ok.mpr ⟨_, bind_eq_ok.mpr ⟨_, hnumber, rfl⟩, hz⟩, hdenotes⟩
  obtain ⟨z, hz, hdenotes⟩ := hvalue
  obtain ⟨d, hd, hd'⟩ := exists_inRange (x := z) (by
    rw [hdenotes.toRat_eq]
    exact hdenotes.representable)
  refine ⟨d, hd'.toRat_eq.trans hdenotes.toRat_eq, fun limits hlimit => ?_⟩
  have htree : (Expr.signedLiteral negative body).tokens =
      resolvePercents (Expr.signedLiteral negative body).tokens := by
    cases negative <;> rfl
  have hdepth : (Expr.signedLiteral negative body).depth ≤ limits.nesting := by
    cases negative with
    | false => exact Nat.zero_le _
    | true => exact limits.nesting_pos
  rw [evaluate_of_tree (tokenize_signedLiteral h hlimit) htree hdepth hz, hd]

end SignedLiteral

/-! ### Texts of numbers -/

namespace Display.NumberText

variable {places : ℕ} (t : NumberText places)

/-- The digits and the point, without the sign. -/
def body : List Char := t.whole ++ pointed t.fraction

theorem text_eq : t.text = Decimal.signText t.negative ++ t.body := List.append_assoc ..

theorem mem_body {c : Char} (h : c ∈ t.body) : c.isDigit = true ∨ c = '.' := by
  rcases List.mem_append.mp h with h | h
  · exact Or.inl (t.whole_digits c h)
  · rcases mem_pointed h with h | h
    · exact Or.inr h
    · exact Or.inl (t.fraction_digits c h)

theorem isLiteralChar_of_mem_body : ∀ c ∈ t.body, isLiteralChar c = true := by
  intro c hc
  rcases t.mem_body hc with hdigit | rfl
  · exact Bool.or_eq_true_iff.mpr (Or.inl (isDecimalDigit_of_isDigit hdigit))
  · decide

theorem isNumeral_body : IsNumeral t.body.length t.body where
  chars c hc := by
    rcases Bool.or_eq_true_iff.mp (t.isLiteralChar_of_mem_body c hc) with hdigit | hpoint
    · exact isNumberChar_of_isDecimalDigit hdigit
    · exact Bool.or_eq_true_iff.mpr (Or.inr hpoint)
  points := by
    have hcount := t.count_point_le
    rw [text_eq, List.count_append] at hcount
    omega
  ne_nil := List.append_ne_nil_of_left_ne_nil t.whole_ne_nil _
  ne_point h := by
    obtain ⟨c, rest, hwhole⟩ := List.exists_cons_of_ne_nil t.whole_ne_nil
    have hdigit := t.whole_digits c (by simp [hwhole])
    rw [body, hwhole] at h
    exact ne_of_isDigit hdigit (by decide) (List.cons_eq_cons.mp h).1
  length_le := Nat.le_refl _

theorem literal_body : literal t.body = written false t.whole t.fraction := by
  have hwhole : ∀ c ∈ t.whole, isDecimalDigit c = true := fun c hc =>
    isDecimalDigit_of_isDigit (t.whole_digits c hc)
  have hfraction : ∀ c ∈ t.fraction, isDecimalDigit c = true := fun c hc =>
    isDecimalDigit_of_isDigit (t.fraction_digits c hc)
  unfold body pointed
  split
  · next hnil =>
    rw [List.append_nil, literal, literalPlaces_whole hwhole, literalDigits, filter_point hwhole,
      written, hnil, List.append_nil]
    rfl
  · rw [literal, literalPlaces_point hwhole, literalDigits_point hwhole hfraction]
    rfl

theorem value_eq :
    t.value = if t.negative then -literalValue t.body else literalValue t.body := by
  rw [← toRat_literal, literal_body, value, decimal]
  cases t.negative with
  | false => rfl
  | true => exact Decimal.toRat_flip (written false t.whole t.fraction)

/-! ### Lengths -/

theorem length_whole_le {k : ℕ} (hk : 0 < k) (h : digitsValue t.whole < 10 ^ k) :
    t.whole.length ≤ k := by
  rw [← t.digitText_whole]
  exact (Nat.length_toDigits_le_iff (by decide) hk).mpr h

theorem magnitude_of_whole (h : t.fraction = []) : t.decimal.magnitude = digitsValue t.whole := by
  rw [Decimal.magnitude, decimal, written, h, List.append_nil, List.length_nil, Nat.cast_zero,
    neg_zero, zpow_zero, mul_one]

/-- A number with a fraction is written with all digits that it has. -/
theorem coefficient_lt {p : ℕ} (hfraction : t.fraction ≠ []) (h : HasDigits p t.value) :
    t.decimal.coefficient < 10 ^ p := by
  obtain ⟨c, e, hc, habs⟩ := h
  have hmagnitude : t.decimal.magnitude = c * 10 ^ e := by rw [← habs, value, Decimal.abs_toRat]
  rcases Int.le_total t.decimal.exponent e with hle | hle
  · have hcoefficient := Decimal.coefficient_eq_of_magnitude_eq hle hmagnitude
    -- The last digit is no zero, so nothing is put after the digits of `c`.
    have hzero : (e - t.decimal.exponent).toNat = 0 := by
      by_contra hpos
      obtain ⟨k, hk⟩ := Nat.exists_eq_succ_of_ne_zero hpos
      refine t.coefficient_mod hfraction ?_
      rw [hcoefficient, hk, Nat.pow_succ, ← Nat.mul_assoc, Nat.mul_mod_left]
    rwa [hcoefficient, hzero, Nat.pow_zero, Nat.mul_one]
  · have hcoefficient := Decimal.coefficient_eq_of_magnitude_eq (x := ⟨false, c, e⟩) hle
      (k := t.decimal.coefficient) hmagnitude.symm
    have hpos : 0 < 10 ^ (t.decimal.exponent - e).toNat := Nat.pow_pos (by decide)
    exact (Nat.le_mul_of_pos_right _ hpos).trans_lt (hcoefficient ▸ hc)

/-- A number that the calculator represents is written with at most 310 characters. -/
theorem length_text_le (hplaces : places ≤ 8) (h : Representable t.value) :
    t.text.length ≤ 310 := by
  have hsign : (Decimal.signText t.negative).length ≤ 1 := by
    cases t.negative <;> decide
  rw [text_eq, body, List.length_append, List.length_append]
  by_cases hfraction : t.fraction = []
  · have hwhole : digitsValue t.whole < 10 ^ 309 := by
      have hle := h.abs_le
      rw [value, Decimal.abs_toRat, t.magnitude_of_whole hfraction, largest_magnitude_eq,
        Nat.cast_le] at hle
      exact hle.trans_lt largest_coefficient_lt
    have hlength := t.length_whole_le (by decide) hwhole
    rw [pointed, if_pos hfraction, List.length_nil]
    omega
  · have hwhole : digitsValue t.whole < 10 ^ 28 := by
      refine lt_of_le_of_lt ?_ (t.coefficient_lt hfraction h.hasDigits)
      rw [decimal, written, digitsValue_append]
      exact (Nat.le_mul_of_pos_right _ (Nat.pow_pos (by decide))).trans (Nat.le_add_right ..)
    have hlength := t.length_whole_le (by decide) hwhole
    have hplaces := t.fraction_length
    rw [pointed, if_neg hfraction, List.length_cons]
    omega

/-! ### Values -/

/-- A number that the calculator represents is the value of its text, and no limit from 310 on keeps
the text from being read. -/
theorem exists_evaluate (hplaces : places ≤ 8) (h : Representable t.value) :
    ∃ d, d.toRat = t.value ∧
      ∀ limits : Limits, 310 ≤ limits.length → evaluate limits t.text = .ok d := by
  have hliteral : Representable (literalValue t.body) := by
    have hvalue := t.value_eq
    split at hvalue
    · rw [← neg_neg (literalValue t.body), ← hvalue]
      exact representable_neg h
    · rwa [← hvalue]
  have hlength := t.length_text_le hplaces h
  have hsize : (t.body.length : ℤ) ≤ -Decimal.lowestExponent := by
    rw [text_eq, List.length_append] at hlength
    simp only [Decimal.lowestExponent]
    omega
  obtain ⟨d, hd, hevaluate⟩ := exists_evaluate_signedLiteral t.negative hsize t.isNumeral_body
    t.isLiteralChar_of_mem_body hliteral
  refine ⟨d, hd.trans t.value_eq.symm, fun limits hlimit => ?_⟩
  rw [text_eq] at hlength ⊢
  exact hevaluate limits (hlength.trans hlimit)

/-- A number that is shown has been rounded to its places. -/
theorem roundedTo_value : roundedTo places t.value = t.value := by
  refine Decimal.roundedTo_toRat_of_le ?_
  have hlength := t.fraction_length
  show -(places : ℤ) ≤ -(t.fraction.length : ℤ)
  omega

end Display.NumberText

/-- The text of a result writes a number that the calculator represents. -/
theorem exists_numberText_of_shown {x : Decimal} {text : List Char} (hx : x.IsResult)
    (hcontains : calculator.Contains x) (hshown : Display.shown x = .ok text) :
    ∃ t : Display.NumberText 8, t.text = text ∧ Representable t.value := by
  have height : 8 ≤ Display.mostPlaces := by decide
  obtain ⟨text', hnumber, ⟨t, rfl⟩, hdenotes⟩ :=
    Display.exists_number (hx.displayable hcontains) height
  have hsame := mapError_eq_ok.mp hshown
  have hvalue : t.value = roundedTo 8 x.toRat := denotes_unique t.denotes hdenotes
  refine ⟨t, Except.ok.inj (hnumber.symm.trans hsame), ?_⟩
  rw [hvalue]
  exact hx.representable_roundedTo height

/-- The text of a result has the number that it denotes as its value, and this is shown alike. -/
theorem exists_evaluate_of_shown {x : Decimal} {text : List Char} (hx : x.IsResult)
    (hcontains : calculator.Contains x) (hshown : Display.shown x = .ok text) :
    ∃ v, (∀ limits : Limits, 310 ≤ limits.length → evaluate limits text = .ok v) ∧
      Denotes text v.toRat ∧ Display.shown v = .ok text := by
  obtain ⟨t, rfl, hrepresentable⟩ := exists_numberText_of_shown hx hcontains hshown
  obtain ⟨v, hv, hevaluate⟩ := t.exists_evaluate (Nat.le_refl 8) hrepresentable
  obtain ⟨again, hagain, htext, hdenotes⟩ :=
    exists_number_of_evaluate (hevaluate (.ofLength 310) (Nat.le_refl 310))
  rw [hv, t.roundedTo_value] at hdenotes
  have heq : again = t.text := Display.text_eq_of_denotes htext ⟨t, rfl⟩ hdenotes t.denotes
  refine ⟨v, hevaluate, ?_, ?_⟩
  · rw [hv]
    exact t.denotes
  · rw [Display.shown, hagain, heq]
    rfl

end PocketCalculator
