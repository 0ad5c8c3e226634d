import PocketCalculator.Proofs.Decimal.Order
import PocketCalculator.Proofs.Display.Reread
import PocketCalculator.Proofs.Expression.Bounds
import PocketCalculator.Proofs.Expression.Precision

/-!
# Numerals as expressions

A numeral is an expression as well: its tokens are a number and perhaps a sign, and the evaluator
gives it the value that the reader of numerals gives (`evaluate_numeral`). The two part in one
place. The evaluator negates a number after it has been read, and rounds what it has negated; a
negative number that vanishes in this rounding leaves a zero without its sign.
-/

namespace PocketCalculator

-- Powers are the core library's, also where other power instances are imported.
attribute [local instance (1200)] instPowNat

/-! ### Fixed-point numbers -/

section Fixed

variable {cs : List Char} {fixed : ℕ × ℕ}

theorem readFixed?_cases (h : readFixed? cs = some fixed) :
    ((∀ c ∈ cs, isDecimalDigit c = true) ∧ cs ≠ []) ∨
      ∃ whole fraction, cs = whole ++ '.' :: fraction ∧
        (∀ c ∈ whole, isDecimalDigit c = true) ∧ (∀ c ∈ fraction, isDecimalDigit c = true) ∧
        (whole ≠ [] ∨ fraction ≠ []) := by
  have hsplit := List.takeWhile_append_dropWhile (p := isDecimalDigit) (l := cs)
  have hwhole : ∀ c ∈ cs.takeWhile isDecimalDigit, isDecimalDigit c = true :=
    fun c hc => List.mem_takeWhile_imp hc
  unfold readFixed? at h
  simp only at h
  generalize cs.takeWhile isDecimalDigit = whole at h hsplit hwhole
  split at h
  · next hrest =>
    rw [hrest, List.append_nil] at hsplit
    subst hsplit
    refine .inl ⟨hwhole, ?_⟩
    rintro rfl
    cases h
  · next c fraction hrest =>
    rw [hrest] at hsplit
    split at h
    · next hpoint =>
      simp only [Bool.and_eq_true, decide_eq_true_eq, List.all_eq_true, Bool.not_eq_true',
        Bool.and_eq_false_iff, List.isEmpty_eq_false_iff] at hpoint
      obtain ⟨⟨rfl, hfraction⟩, hne⟩ := hpoint
      exact .inr ⟨whole, fraction, hsplit.symm, hwhole, hfraction, hne⟩
    · cases h

theorem count_point_of_digits (h : ∀ c ∈ cs, isDecimalDigit c = true) : cs.count '.' = 0 :=
  List.count_eq_zero.mpr fun hmem => absurd (h '.' hmem) (by decide)

/-- What is read as a fixed-point number is scanned as one number. -/
theorem isNumeral_of_readFixed? (h : readFixed? cs = some fixed) : IsNumeral cs.length cs := by
  rcases readFixed?_cases h with ⟨hdigits, hne⟩ | ⟨whole, fraction, rfl, hwhole, hfraction, hne⟩
  · refine ⟨fun c hc => isNumberChar_of_isDecimalDigit (hdigits c hc), ?_, hne, ?_, Nat.le_refl _⟩
    · rw [count_point_of_digits hdigits]
      exact Nat.zero_le 1
    · rintro rfl
      exact absurd (hdigits '.' List.mem_cons_self) (by decide)
  · refine ⟨fun c hc => ?_, ?_, by simp, fun hpoint => ?_, Nat.le_refl _⟩
    · rcases List.mem_append.mp hc with hc | hc
      · exact isNumberChar_of_isDecimalDigit (hwhole c hc)
      · rcases List.mem_cons.mp hc with rfl | hc
        · decide
        · exact isNumberChar_of_isDecimalDigit (hfraction c hc)
    · rw [List.count_append, List.count_cons_self, count_point_of_digits hwhole,
        count_point_of_digits hfraction]
    · rcases List.append_eq_singleton_iff.mp hpoint with ⟨hnil, hcons⟩ | ⟨_, hcons⟩
      · cases hcons
        exact hne.elim (absurd hnil) (absurd rfl)
      · cases hcons

end Fixed

/-! ### The tree of a numeral -/

/-- A number with the sign in front of it, if there is one; `true` is a minus. -/
def Expr.numeral (sign : Option Bool) (body : List Char) : Expr :=
  .single (.single
    (match sign with
    | none => .plain (.number body) 0
    | some minus => .signed minus (.plain (.number body) 0)))

section Tree

variable {size : ℕ} {limits : Limits} {cs body text : List Char} {negative : Bool}
  {sign : Option Bool} {fixed : ℕ × ℕ} {x d : Decimal}

theorem exists_scan_of_splitSign (h : splitSign cs = (negative, body))
    (hbody : IsNumeral size body) :
    ∃ sign : Option Bool, sign.getD false = negative ∧
      scan cs = .ok (Expr.numeral sign body).tokens := by
  unfold splitSign at h
  split at h
  · cases h
    exact ⟨some true, rfl, scan_sign_numeral true hbody⟩
  · cases h
    exact ⟨some false, rfl, scan_sign_numeral false hbody⟩
  · cases h
    exact ⟨none, rfl, scan_numeral hbody⟩

theorem exists_tokenize_numeral {limit : ℕ}
    (h : splitSign (normalizeText text) = (negative, body)) (hbody : IsNumeral size body)
    (hlimit : (trim text).length ≤ limit) :
    ∃ sign : Option Bool, sign.getD false = negative ∧
      tokenize limit text = .ok (Expr.numeral sign body).tokens := by
  obtain ⟨sign, hnegative, hscan⟩ := exists_scan_of_splitSign h hbody
  refine ⟨sign, hnegative, ?_⟩
  have hne : (normalizeText text).isEmpty = false := by
    refine List.isEmpty_eq_false_iff.mpr fun hnil => hbody.ne_nil ?_
    rw [hnil] at h
    exact (congrArg Prod.snd h).symm
  have hlength : (normalizeText text).length = (trim text).length := List.length_map ..
  unfold tokenize
  simp only [hne, hlength, Nat.not_lt.mpr hlimit, Bool.false_eq_true, if_false]
  exact hscan

theorem value_numeral (h : Extended.ofText? body = some (.finite x)) :
    (Expr.numeral sign body).value .decimals =
      if sign.getD false then negated (.finite x) else .ok (.finite x) := by
  have hnumber : Arithmetic.decimals.number body = .ok (.finite x) := by
    simp only [Arithmetic.decimals, h]
  have hplain : (Factor.plain (.number body) 0).value .decimals none = .ok (.finite x) :=
    bind_eq_ok.mpr ⟨_, hnumber, rfl⟩
  cases sign with
  | none => exact hplain
  | some minus =>
    show (do Arithmetic.decimals.signed minus (← (Factor.plain (.number body) 0).value .decimals
      none)) = _
    rw [hplain]
    rfl

theorem evaluate_of_tokenize_numeral (h : Extended.ofText? body = some (.finite x))
    (htokens : tokenize limits.length text = .ok (Expr.numeral sign body).tokens) :
    evaluate limits text =
      if sign.getD false then (do
        let y ← (negated (.finite x)).mapError Failure.toFault
        inRange y)
      else inRange (.finite x) := by
  have htree : (Expr.numeral sign body).tokens =
      resolvePercents (Expr.numeral sign body).tokens := by
    rcases sign with _ | _ | _ <;> rfl
  have hdepth : (Expr.numeral sign body).depth ≤ limits.nesting := by
    cases sign with
    | none => exact Nat.zero_le _
    | some minus => exact limits.nesting_pos
  rw [evaluate_eq_of_tree htokens htree hdepth, value_numeral h]
  split
  · rfl
  · rfl

/-! ### Reading and evaluating -/

theorem numeralValue_of_readNumeral (h : readNumeral text = .ok d) (hd : d.isStorable = true) :
    numeralValue text = .ok d := by
  unfold numeralValue
  rw [h]
  exact if_pos hd

theorem exists_of_numeralValue (h : numeralValue text = .ok d) :
    ∃ body fixed, splitSign (normalizeText text) = (d.negative, body) ∧
      readFixed? body = some fixed ∧ d = { fixedDecimal fixed with negative := d.negative } ∧
      d.isStorable = true := by
  obtain ⟨x, hx, hd⟩ := bind_eq_ok.mp h
  have hread := mapError_eq_ok.mp hx
  split at hd
  · next hstorable =>
    cases hd
    unfold readNumeral at hread
    cases hsign : splitSign (normalizeText text) with
    | mk negative body =>
      simp only [hsign] at hread
      split at hread
      · next fixed hfixed =>
        cases hread
        exact ⟨body, _, rfl, hfixed, rfl, hstorable⟩
      · cases hread
  · cases hd

theorem ofText?_of_readFixed? (h : readFixed? body = some fixed)
    (hstorable : (fixedDecimal fixed).isStorable = true) :
    Extended.ofText? body = some (.finite (fixedDecimal fixed)) := by
  rw [ofText?_of_isNumberChar (isNumeral_of_readFixed? h).chars, h, Option.map_some,
    Option.filter_some, if_pos hstorable, Option.map_some]

/-- A numeral is evaluated by reading its digits, negating them if there is a minus, and bringing
the value into range. -/
theorem evaluate_of_numeralValue (h : numeralValue text = .ok d)
    (hlimit : (trim text).length ≤ limits.length) :
    evaluate limits text =
      if d.negative then (do
        let x ← (negated (.finite d.flip)).mapError Failure.toFault
        inRange x)
      else inRange (.finite d) := by
  obtain ⟨body, fixed, hsign, hfixed, hd, hstorable⟩ := exists_of_numeralValue h
  have hsame : (fixedDecimal fixed).isStorable = d.isStorable := by
    rw [hd]
    rfl
  obtain ⟨sign, hnegative, htokens⟩ :=
    exists_tokenize_numeral hsign (isNumeral_of_readFixed? hfixed) hlimit
  rw [evaluate_of_tokenize_numeral (ofText?_of_readFixed? hfixed (hsame.trans hstorable)) htokens,
    hnegative]
  cases hminus : d.negative with
  | false =>
    rw [hd, hminus]
    rfl
  | true =>
    rw [hd, hminus]
    rfl

end Tree

/-! ### Negative numbers -/

section Negative

variable {x y d : Decimal}

theorem Context.minus_eq_plus_flip (c : Context) (x : Decimal) : c.minus x = c.plus x.flip := rfl

/-- To round twice is to round once, where no negative zero comes out. -/
theorem inRange_plus (h : calculator.plus x = .ok y) (hy : y.isZero = true → y.negative = false) :
    inRange (.finite y) = inRange (.finite x) := by
  have hplus := Context.plus_of_contains (Context.contains_of_round (by decide) h)
  rw [Decimal.unsigned_zero_eq hy] at hplus
  rw [inRange_of_plus h, inRange_of_plus hplus]

/-- A negative decimal that the calculator rounds to zero: it is at most half of the smallest
step. -/
structure Decimal.LosesSign (d : Decimal) : Prop where
  negative : d.negative = true
  nonzero : d.isZero = false
  vanishes : 2 * d.magnitude ≤ 10 ^ calculator.finestExponent

theorem plus_of_losesSign (h : d.LosesSign) :
    calculator.plus d = .ok ⟨true, 0, calculator.finestExponent⟩ := by
  unfold Context.plus
  rw [h.nonzero, if_neg (by decide), Context.round_of_vanishing rfl (by decide) h.nonzero
    h.vanishes, h.negative]

theorem not_negative_of_plus (hd : ¬ d.LosesSign) (hnegative : d.negative = true)
    (h : calculator.plus d = .ok y) (hy : y.isZero = true) : y.negative = false := by
  unfold Context.plus at h
  split at h
  · exact Context.negative_of_round h
  · next hzero =>
    have hnonzero := Bool.eq_false_iff.mpr hzero
    exact absurd ⟨hnegative, hnonzero, Context.vanishing_of_round (by decide) hnonzero h hy⟩ hd

theorem negated_flip (d : Decimal) :
    negated (.finite d.flip) = (.finite <$> calculator.plus d).mapError .signal := by
  have hflip : d.flip.flip = d := by
    rw [Decimal.flip, Decimal.flip, Bool.not_not]
  rw [negated, Context.negate, Context.minus_eq_plus_flip, hflip]

/-- Negating and bringing into range is bringing into range, unless the sign is lost. -/
theorem inRange_negated (hd : ¬ d.LosesSign) (hnegative : d.negative = true) :
    (do
      let x ← (negated (.finite d.flip)).mapError Failure.toFault
      inRange x) = inRange (.finite d) := by
  rw [negated_flip]
  cases hplus : calculator.plus d with
  | error s =>
    unfold inRange
    simp only [hplus]
    rfl
  | ok y => exact inRange_plus hplus (not_negative_of_plus hd hnegative hplus)

theorem inRange_of_losesSign (hd : d.LosesSign) :
    inRange (.finite d) = .ok ⟨true, 0, calculator.finestExponent⟩ :=
  inRange_eq_ok.mpr ⟨plus_of_losesSign hd, rfl⟩

theorem inRange_negated_of_losesSign (hd : d.LosesSign) :
    (do
      let x ← (negated (.finite d.flip)).mapError Failure.toFault
      inRange x) = .ok ⟨false, 0, calculator.finestExponent⟩ := by
  rw [negated_flip, plus_of_losesSign hd]
  rfl

end Negative

/-! ### The outcome -/

section Outcome

variable {limits : Limits} {text : List Char} {d : Decimal}

theorem evaluate_of_not_losesSign (h : numeralValue text = .ok d)
    (hlimit : (trim text).length ≤ limits.length) (hd : ¬ d.LosesSign) :
    evaluate limits text = inRange (.finite d) := by
  rw [evaluate_of_numeralValue h hlimit]
  split
  · next hnegative => exact inRange_negated hd hnegative
  · rfl

theorem evaluate_of_losesSign (h : numeralValue text = .ok d)
    (hlimit : (trim text).length ≤ limits.length) (hd : d.LosesSign) :
    evaluate limits text = .ok ⟨false, 0, calculator.finestExponent⟩ := by
  rw [evaluate_of_numeralValue h hlimit, if_pos hd.negative, inRange_negated_of_losesSign hd]

/-- A numeral is evaluated to the decimal that it denotes, brought into range. Of a negative number
that vanishes, the evaluator drops the sign. -/
theorem evaluate_numeral (h : numeralValue text = .ok d)
    (hlimit : (trim text).length ≤ limits.length) :
    (¬ d.LosesSign → evaluate limits text = inRange (.finite d)) ∧
      (d.LosesSign → inRange (.finite d) = .ok ⟨true, 0, -1000026⟩ ∧
        evaluate limits text = .ok ⟨false, 0, -1000026⟩) ∧
      ∀ fault, evaluate limits text = .error fault → fault = .outOfRange := by
  refine ⟨evaluate_of_not_losesSign h hlimit,
    fun hd => ⟨inRange_of_losesSign hd, evaluate_of_losesSign h hlimit hd⟩, fun fault hfault => ?_⟩
  by_cases hd : d.LosesSign
  · rw [evaluate_of_losesSign h hlimit hd] at hfault
    cases hfault
  · rw [evaluate_of_not_losesSign h hlimit hd] at hfault
    exact outOfRange_of_inRange hfault

/-- Digits of another script, a comma and a typographic minus. -/
theorem evaluate_numeral_of_script :
    numeralValue " −٣,50 ".toList = .ok ⟨true, 350, -2⟩ ∧
      (trim " −٣,50 ".toList).length ≤ Limits.standard.length ∧
      evaluate .standard " −٣,50 ".toList = .ok ⟨true, 350, -2⟩ := by
  have hvalue : numeralValue " −٣,50 ".toList = .ok ⟨true, 350, -2⟩ :=
    toOption_eq_some.mp (by decide +kernel)
  have hlength : (trim " −٣,50 ".toList).length ≤ Limits.standard.length := by decide +kernel
  refine ⟨hvalue, hlength, ?_⟩
  rw [(evaluate_numeral hvalue hlength).1 fun hd => ?_]
  · decide +kernel
  · have hle := hd.vanishes.trans (zpow_le_one_of_nonpos₀ (by norm_num) (by decide))
    norm_num [Decimal.magnitude] at hle

/-! ### A sign that is lost -/

/-- A minus, a point, and a one behind so many zeros. -/
def tinyText (zeros : ℕ) : List Char :=
  Decimal.signText true ++ '.' :: (List.replicate zeros '0' ++ ['1'])

theorem numeralValue_tinyText {zeros : ℕ}
    (hstorable : (Decimal.mk true 1 (-(zeros + 1 : ℕ))).isStorable = true) :
    numeralValue (tinyText zeros) = .ok ⟨true, 1, -(zeros + 1 : ℕ)⟩ := by
  have hdigits : ∀ c ∈ List.replicate zeros '0' ++ ['1'], isDecimalDigit c = true := by
    intro c hc
    rcases List.mem_append.mp hc with hc | hc
    · rw [List.eq_of_mem_replicate hc]
      decide
    · rw [List.mem_singleton.mp hc]
      decide
  have hvalue : digitsValue (List.replicate zeros '0' ++ ['1']) = 1 := by
    rw [digitsValue_append, digitsValue_zeros, Nat.zero_mul, Nat.zero_add]
    rfl
  have hfixed : readFixed? ('.' :: (List.replicate zeros '0' ++ ['1'])) = some (1, zeros + 1) := by
    have hempty : ∀ c ∈ ([] : List Char), isDecimalDigit c = true := List.forall_mem_nil _
    have hread := readFixed?_point hempty hdigits (by simp)
    rw [List.nil_append, List.nil_append, hvalue, List.length_append,
      List.length_replicate] at hread
    exact hread
  have hchars := (isNumeral_of_readFixed? hfixed).chars
  exact numeralValue_of_readNumeral (readNumeral_signed hchars hfixed) hstorable

theorem evaluate_tinyText_ne :
    numeralValue (tinyText 1000026) = .ok ⟨true, 1, -1000027⟩ ∧
      (trim (tinyText 1000026)).length ≤ (Limits.ofLength 1000029).length ∧
      evaluate (.ofLength 1000029) (tinyText 1000026) ≠ inRange (.finite ⟨true, 1, -1000027⟩) := by
  have hvalue : numeralValue (tinyText 1000026) = .ok ⟨true, 1, -1000027⟩ :=
    numeralValue_tinyText (by decide +kernel)
  have hlength : (trim (tinyText 1000026)).length ≤ (Limits.ofLength 1000029).length := by
    refine (length_trim_le _).trans (Nat.le_of_eq ?_)
    rw [tinyText, List.length_append, List.length_cons, List.length_append, List.length_replicate]
    rfl
  have hsign : (Decimal.mk true 1 (-1000027)).LosesSign :=
    ⟨rfl, rfl, (Decimal.two_mul_magnitude_le_iff (by decide)).mpr (by decide)⟩
  refine ⟨hvalue, hlength, fun heq => ?_⟩
  rw [evaluate_of_losesSign hvalue hlength hsign, inRange_of_losesSign hsign] at heq
  cases heq

end Outcome

end PocketCalculator
