import Mathlib.Data.List.TakeWhile
import PocketCalculator.Proofs.Expression.Simulation
import PocketCalculator.Proofs.Expression.Tokens

/-!
# Literals

The scanner takes runs of digits and points as numbers. Such a run is read as a fixed-point number
or not at all, and decimal digits with at most one point are read as what they write.
-/

namespace PocketCalculator

-- Powers are the core library's, also where other power instances are imported.
attribute [local instance (1200)] instPowNat

/-- A number as the scanner takes it, from a text of at most `size` characters. -/
structure IsNumeral (size : Nat) (text : List Char) : Prop where
  chars : ∀ c ∈ text, isNumberChar c = true
  points : text.count '.' ≤ 1
  ne_nil : text ≠ []
  ne_point : text ≠ ['.']
  length_le : text.length ≤ size

/-! ### The scanner -/

theorem isNumeral_of_takeToken {c : Char} {rest tail text : List Char} {size : Nat}
    (hsize : rest.length < size) (h : takeToken c rest = .ok (.number text, tail)) :
    IsNumeral size text := by
  unfold takeToken at h
  split at h
  · cases h
  split at h
  · cases h
  split at h
  · cases h
  split at h
  · cases h
  split at h
  · cases h
  split at h
  · next hc =>
    unfold takeNumber at h
    simp only at h
    split at h
    · cases h
    · next hpoints =>
      cases h
      simp only [Bool.or_eq_true, decide_eq_true_eq, not_or, Nat.not_lt] at hpoints
      have hsublist := List.takeWhile_sublist isNumberChar (l := c :: rest)
      refine ⟨fun d hd => List.mem_takeWhile_imp hd, hpoints.1, ?_, hpoints.2, ?_⟩
      · rw [List.takeWhile_cons, if_pos hc]
        intro hnil
        cases hnil
      · exact Nat.le_trans hsublist.length_le hsize
  · cases h

theorem length_trim_le (text : List Char) : (trim text).length ≤ text.length := by
  unfold trim trimEnd trimStart
  rw [List.length_reverse]
  refine (length_dropWhile_le _ _).trans ?_
  rw [List.length_reverse]
  exact length_dropWhile_le _ _

theorem length_normalizeText_le (text : List Char) : (normalizeText text).length ≤ text.length := by
  unfold normalizeText
  rw [List.length_map]
  exact length_trim_le text

theorem isNumeral_of_tokenize {limit : Nat} {text : List Char} {ts : List Token}
    (h : tokenize limit text = .ok ts) :
    AllNumbers (IsNumeral text.length) (resolvePercents ts) := by
  have hscan := forall_mem_scan (P := fun t => ∀ u, t = .number u → IsNumeral text.length u)
    (fun c rest t tail hsize ht u hu => isNumeral_of_takeToken hsize (hu ▸ ht))
    (length_normalizeText_le text) (scan_of_tokenize h).2
  intro u hu
  exact forall_mem_resolvePercents (fun u hu => by cases hu) hscan _ hu u rfl

/-! ### Characters -/

section Characters

variable {c d : Char}

/-- Ranges that meet no digits hold no digit. -/
theorem inRanges_of_isDigitChar {ranges : List (Nat × Nat)}
    (hdecimal : ∀ base ∈ decimalZeros, ∀ range ∈ ranges, range.2 < base ∨ base + 10 ≤ range.1)
    (hother : ∀ digits ∈ otherDigitRanges, ∀ range ∈ ranges,
      range.2 < digits.1 ∨ digits.2 < range.1)
    (h : isDigitChar c = true) : inRanges ranges c = false := by
  unfold inRanges
  rw [List.any_eq_false]
  intro range hrange
  simp only [Bool.and_eq_true, decide_eq_true_eq]
  rcases Bool.or_eq_true_iff.mp h with h | h
  · obtain ⟨value, hvalue⟩ := Option.isSome_iff_exists.mp h
    simp only [digitValue?, Option.map_eq_some_iff] at hvalue
    obtain ⟨base, hfind, _⟩ := hvalue
    have hbetween := List.find?_some hfind
    simp only [Bool.and_eq_true, decide_eq_true_eq] at hbetween
    have := hdecimal base (List.mem_of_find?_eq_some hfind) range hrange
    omega
  · obtain ⟨digits, hdigits, hbetween⟩ := List.any_eq_true.mp h
    simp only [Bool.and_eq_true, decide_eq_true_eq] at hbetween
    have := hother digits hdigits range hrange
    omega

theorem ne_of_isNumberChar (hc : isNumberChar c = true) (hd : isNumberChar d = false) :
    c ≠ d := by
  rintro rfl
  rw [hc] at hd
  cases hd

theorem isBlank_of_isNumberChar (h : isNumberChar c = true) : isBlank c = false := by
  rcases Bool.or_eq_true_iff.mp h with hdigit | hpoint
  · exact inRanges_of_isDigitChar (by decide) (by decide) hdigit
  · rw [decide_eq_true_eq] at hpoint
    rw [hpoint]
    decide

theorem toLower_of_isNumberChar (h : isNumberChar c = true) : c.toLower = c := by
  have hcapital : inRanges [(0x41, 0x5A)] c = false := by
    rcases Bool.or_eq_true_iff.mp h with hdigit | hpoint
    · exact inRanges_of_isDigitChar (by decide) (by decide) hdigit
    · rw [decide_eq_true_eq] at hpoint
      rw [hpoint]
      decide
  refine dif_neg fun hle => ?_
  have hlow : 0x41 ≤ c.toNat := UInt32.le_iff_toNat_le.mp hle.1
  have hhigh : c.toNat ≤ 0x5A := UInt32.le_iff_toNat_le.mp hle.2
  simp only [inRanges, List.any_cons, List.any_nil, Bool.or_false, Bool.and_eq_false_iff,
    decide_eq_false_iff_not] at hcapital
  omega

end Characters

/-! ### Texts of number characters -/

section Texts

variable {cs : List Char}

theorem dropWhile_of_forall {p : Char → Bool} (h : ∀ c ∈ cs, p c = false) :
    cs.dropWhile p = cs := by
  cases cs with
  | nil => rfl
  | cons c cs => rw [List.dropWhile_cons, h c (List.mem_cons_self ..), if_neg (by decide)]

theorem trim_eq_self (h : ∀ c ∈ cs, isBlank c = false) : trim cs = cs := by
  have hreverse : ∀ c ∈ cs.reverse, isBlank c = false := fun c hc => h c (List.mem_reverse.mp hc)
  unfold trim trimStart trimEnd
  rw [dropWhile_of_forall h, dropWhile_of_forall hreverse, List.reverse_reverse]

theorem splitSign_of_isNumberChar (h : ∀ c ∈ cs, isNumberChar c = true) :
    splitSign cs = (false, cs) := by
  unfold splitSign
  split
  · exact absurd (h _ (List.mem_cons_self ..)) (by decide)
  · exact absurd (h _ (List.mem_cons_self ..)) (by decide)
  · rfl

theorem ofName?_of_isNumberChar {negative : Bool} (h : ∀ c ∈ cs, isNumberChar c = true) :
    Extended.ofName? cs negative = none := by
  have hnames : Extended.infinityNames.contains cs = false := by
    rw [← Bool.not_eq_true, List.contains_iff_mem]
    intro hmem
    simp only [Extended.infinityNames, List.mem_cons, List.not_mem_nil, or_false] at hmem
    rcases hmem with rfl | rfl
    · exact absurd (h 'i' (by decide)) (by decide)
    · exact absurd (h 'i' (by decide)) (by decide)
  unfold Extended.ofName?
  rw [hnames, if_neg (by decide)]
  split
  · exact absurd (h _ (List.mem_cons_self ..)) (by decide)
  · exact absurd (h _ (List.mem_cons_self ..)) (by decide)
  · rfl

/-- The decimal with these digits, of which the given number follows the point. -/
def fixedDecimal (fixed : Nat × Nat) : Decimal := ⟨false, fixed.1, -(fixed.2 : ℤ)⟩

theorem readUnsigned?_of_isNumberChar (h : ∀ c ∈ cs, isNumberChar c = true) :
    Decimal.readUnsigned? cs = (readFixed? cs).map fixedDecimal := by
  have hmark : ∀ c ∈ cs, (!(decide (c = 'e') || decide (c = 'E'))) = true := by
    intro c hc
    have hsmall := ne_of_isNumberChar (h c hc) (show isNumberChar 'e' = false by decide)
    have hlarge := ne_of_isNumberChar (h c hc) (show isNumberChar 'E' = false by decide)
    simp [hsmall, hlarge]
  unfold Decimal.readUnsigned?
  simp only [List.takeWhile_eq_self_iff.mpr hmark, List.dropWhile_eq_nil_iff.mpr hmark]
  cases readFixed? cs with
  | none => rfl
  | some fixed => rfl

/-- Without signs, names and exponents, all that can be read is a fixed-point number. -/
theorem ofText?_of_isNumberChar (h : ∀ c ∈ cs, isNumberChar c = true) :
    Extended.ofText? cs =
      (((readFixed? cs).map fixedDecimal).filter Decimal.isStorable).map .finite := by
  have hblank : ∀ c ∈ cs, isBlank c = false := fun c hc => isBlank_of_isNumberChar (h c hc)
  have hunderscore : ∀ c ∈ cs, decide (c ≠ '_') = true := fun c hc =>
    decide_eq_true (ne_of_isNumberChar (h c hc) (by decide))
  have hlower : cs.map Char.toLower = cs :=
    (List.map_congr_left fun c hc => toLower_of_isNumberChar (h c hc)).trans (List.map_id cs)
  unfold Extended.ofText?
  rw [trim_eq_self hblank, List.filter_eq_self.mpr hunderscore, splitSign_of_isNumberChar h]
  simp only [hlower, ofName?_of_isNumberChar h, readUnsigned?_of_isNumberChar h]
  cases readFixed? cs with
  | none => rfl
  | some fixed =>
    simp only [Option.map_some, Option.filter_some]
    split
    · rfl
    · rfl

end Texts

/-! ### Sizes -/

theorem digitsValue_lt (cs : List Char) : digitsValue cs < 10 ^ cs.length := by
  have hfold : ∀ (cs : List Char) (n k : Nat), n < 10 ^ k →
      cs.foldl (fun n c => 10 * n + (digitValue? c).getD 0) n < 10 ^ (k + cs.length) := by
    intro cs
    induction cs with
    | nil =>
      intro n k h
      exact h
    | cons c cs ih =>
      intro n k h
      have hdigit : (digitValue? c).getD 0 < 10 := by
        cases hc : digitValue? c with
        | none => decide
        | some d => exact digitValue?_lt hc
      have hstep : 10 * n + (digitValue? c).getD 0 < 10 ^ (k + 1) := by
        rw [Nat.pow_succ]
        omega
      have hrest := ih _ _ hstep
      rw [List.foldl_cons, List.length_cons, Nat.add_comm cs.length, ← Nat.add_assoc]
      exact hrest
  have hall := hfold cs 0 0 (by decide)
  rw [Nat.zero_add] at hall
  exact hall

theorem readFixed?_lt {cs : List Char} {fixed : Nat × Nat} (h : readFixed? cs = some fixed) :
    fixed.1 < 10 ^ cs.length ∧ fixed.2 ≤ cs.length := by
  have hsplit := List.takeWhile_append_dropWhile (p := isDecimalDigit) (l := cs)
  have hlength := congrArg List.length hsplit
  rw [List.length_append] at hlength
  unfold readFixed? at h
  simp only at h
  split at h
  · split at h
    · cases h
    · cases h
      exact ⟨(digitsValue_lt _).trans_le (Nat.pow_le_pow_right (by decide) (by omega)),
        Nat.zero_le _⟩
  · next c fraction hrest =>
    rw [hrest, List.length_cons] at hlength
    split at h
    · cases h
      have hlt := digitsValue_lt (cs.takeWhile isDecimalDigit ++ fraction)
      rw [List.length_append] at hlt
      refine ⟨hlt.trans_le (Nat.pow_le_pow_right (by decide) (by omega)), ?_⟩
      show fraction.length ≤ cs.length
      omega
    · cases h

/-! ### Decimal digits -/

theorem isNumberChar_of_isDecimalDigit {c : Char} (h : isDecimalDigit c = true) :
    isNumberChar c = true :=
  Bool.or_eq_true_iff.mpr (Or.inl (isDigitChar_of_isDecimalDigit h))

/-- A decimal digit of any script, or a point. -/
def isLiteralChar (c : Char) : Bool := isDecimalDigit c || c = '.'

def literalDigits (text : List Char) : List Char := text.filter (· ≠ '.')

def literalPlaces (text : List Char) : Nat := ((text.dropWhile (· ≠ '.')).drop 1).length

def literal (text : List Char) : Decimal :=
  fixedDecimal (digitsValue (literalDigits text), literalPlaces text)

section Points

variable {text whole fraction : List Char}

theorem isDecimalDigit_of_not_mem (hchars : ∀ c ∈ text, isLiteralChar c = true)
    (hpoint : '.' ∉ text) : ∀ c ∈ text, isDecimalDigit c = true := by
  intro c hc
  rcases Bool.or_eq_true_iff.mp (hchars c hc) with hdigit | hc'
  · exact hdigit
  · rw [decide_eq_true_eq] at hc'
    rw [hc'] at hc
    exact absurd hc hpoint

/-- A literal is a whole number, or it has a point and digits around it. -/
theorem literal_cases (hchars : ∀ c ∈ text, isLiteralChar c = true)
    (hpoints : text.count '.' ≤ 1) :
    (∀ c ∈ text, isDecimalDigit c = true) ∨
      ∃ whole fraction, text = whole ++ '.' :: fraction ∧
        (∀ c ∈ whole, isDecimalDigit c = true) ∧ (∀ c ∈ fraction, isDecimalDigit c = true) := by
  by_cases hpoint : '.' ∈ text
  · right
    obtain ⟨whole, fraction, rfl⟩ := List.append_of_mem hpoint
    rw [List.count_append, List.count_cons_self] at hpoints
    have hwhole : '.' ∉ whole := List.count_eq_zero.mp (by omega)
    have hfraction : '.' ∉ fraction := List.count_eq_zero.mp (by omega)
    simp only [List.mem_append, List.mem_cons] at hchars
    refine ⟨whole, fraction, rfl, ?_, ?_⟩
    · exact isDecimalDigit_of_not_mem (fun c hc => hchars c (Or.inl hc)) hwhole
    · exact isDecimalDigit_of_not_mem (fun c hc => hchars c (Or.inr (Or.inr hc))) hfraction
  · left
    exact isDecimalDigit_of_not_mem hchars hpoint

theorem filter_point (h : ∀ c ∈ whole, isDecimalDigit c = true) :
    whole.filter (· ≠ '.') = whole := by
  refine List.filter_eq_self.mpr fun c hc => decide_eq_true ?_
  rintro rfl
  exact absurd (h '.' hc) (by decide)

theorem dropWhile_point (h : ∀ c ∈ whole, isDecimalDigit c = true) (rest : List Char) :
    (whole ++ rest).dropWhile (· ≠ '.') = rest.dropWhile (· ≠ '.') := by
  refine List.dropWhile_append_of_pos fun c hc => decide_eq_true ?_
  rintro rfl
  exact absurd (h '.' hc) (by decide)

theorem literalPlaces_whole (h : ∀ c ∈ whole, isDecimalDigit c = true) :
    literalPlaces whole = 0 := by
  have hdrop := dropWhile_point h []
  rw [List.append_nil] at hdrop
  unfold literalPlaces
  rw [hdrop]
  rfl

theorem literalDigits_point (hwhole : ∀ c ∈ whole, isDecimalDigit c = true)
    (hfraction : ∀ c ∈ fraction, isDecimalDigit c = true) :
    literalDigits (whole ++ '.' :: fraction) = whole ++ fraction := by
  unfold literalDigits
  rw [List.filter_append, filter_point hwhole, List.filter_cons_of_neg (by decide),
    filter_point hfraction]

theorem literalPlaces_point (hwhole : ∀ c ∈ whole, isDecimalDigit c = true) :
    literalPlaces (whole ++ '.' :: fraction) = fraction.length := by
  unfold literalPlaces
  rw [dropWhile_point hwhole, List.dropWhile_cons_of_neg (by decide)]
  rfl

end Points

section Fixed

variable {whole fraction : List Char}

theorem readFixed?_whole (hwhole : ∀ c ∈ whole, isDecimalDigit c = true) (hne : whole ≠ []) :
    readFixed? whole = some (digitsValue whole, 0) := by
  have hempty : whole.isEmpty = false := List.isEmpty_eq_false_iff.mpr hne
  unfold readFixed?
  rw [List.takeWhile_eq_self_iff.mpr hwhole, List.dropWhile_eq_nil_iff.mpr hwhole]
  simp only [hempty, Bool.false_eq_true, if_false]

theorem readFixed?_point (hwhole : ∀ c ∈ whole, isDecimalDigit c = true)
    (hfraction : ∀ c ∈ fraction, isDecimalDigit c = true)
    (hne : (whole.isEmpty && fraction.isEmpty) = false) :
    readFixed? (whole ++ '.' :: fraction) =
      some (digitsValue (whole ++ fraction), fraction.length) := by
  unfold readFixed?
  rw [List.takeWhile_append_of_pos hwhole, List.dropWhile_append_of_pos hwhole,
    List.takeWhile_cons_of_neg (by decide), List.dropWhile_cons_of_neg (by decide)]
  simp only [List.append_nil, List.all_eq_true.mpr hfraction, hne, Bool.not_false, Bool.and_true,
    decide_true, if_true]

end Fixed

theorem readFixed?_literal {size : Nat} {text : List Char} (h : IsNumeral size text)
    (hchars : ∀ c ∈ text, isLiteralChar c = true) :
    readFixed? text = some (digitsValue (literalDigits text), literalPlaces text) := by
  obtain hdigits | ⟨whole, fraction, rfl, hwhole, hfraction⟩ := literal_cases hchars h.points
  · rw [literalPlaces_whole hdigits, literalDigits, filter_point hdigits]
    exact readFixed?_whole hdigits h.ne_nil
  · have hempty : (whole.isEmpty && fraction.isEmpty) = false := by
      cases whole with
      | cons c whole => rfl
      | nil =>
        cases fraction with
        | cons c fraction => rfl
        | nil => exact absurd rfl h.ne_point
    rw [literalPlaces_point hwhole, literalDigits_point hwhole hfraction]
    exact readFixed?_point hwhole hfraction hempty

theorem literalPlaces_le (text : List Char) : literalPlaces text ≤ text.length := by
  unfold literalPlaces
  rw [List.length_drop]
  exact (Nat.sub_le ..).trans (length_dropWhile_le _ _)

theorem ofText?_literal {size : Nat} {text : List Char} (h : IsNumeral size text)
    (hchars : ∀ c ∈ text, isLiteralChar c = true) (hstorable : (literal text).isStorable = true) :
    Extended.ofText? text = some (.finite (literal text)) := by
  rw [ofText?_of_isNumberChar h.chars, readFixed?_literal h hchars, Option.map_some,
    Option.filter_some]
  exact congrArg (Option.map Extended.finite) (if_pos hstorable)

end PocketCalculator
