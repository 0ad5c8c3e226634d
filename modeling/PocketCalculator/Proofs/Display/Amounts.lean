import PocketCalculator.Proofs.Display.Canonical

/-!
# The text of an amount

Groups of three digits, counted from the right, stand before the point (`exists_groups`), and as
many digits as there are places after it. A negative amount is rounded twice: to its places, and
then to the calculator's precision when its sign is taken off. So the text denotes the amount
rounded to its places if and only if the amount is not negative or 28 digits are enough for it
(`amount_laid_out`).
-/

namespace PocketCalculator

-- Powers are the core library's, also where other power instances are imported.
attribute [local instance (1200)] instPowNat

namespace Display

/-! ### Groups of digits -/

section Groups

variable {keep : Char → Bool} {separator cs : List Char}

theorem exists_threes (hne : cs ≠ []) :
    ∃ front last, threes cs = front ++ [last] ∧ (∀ piece ∈ front, piece.length = 3) ∧
      last ≠ [] ∧ last.length ≤ 3 := by
  fun_induction threes cs with
  | case1 => exact absurd rfl hne
  | case2 a b c d cs ih =>
    obtain ⟨front, last, hpieces, hfront, hlast, hlength⟩ := ih (List.cons_ne_nil _ _)
    refine ⟨[a, b, c] :: front, last, by rw [hpieces, List.cons_append], ?_, hlast, hlength⟩
    intro piece hpiece
    rcases List.mem_cons.mp hpiece with rfl | hpiece
    · rfl
    · exact hfront piece hpiece
  | case3 cs hnil hlong =>
    refine ⟨[], cs, rfl, fun _ hpiece => absurd hpiece List.not_mem_nil, hne, ?_⟩
    rcases cs with _ | ⟨a, _ | ⟨b, _ | ⟨c, _ | ⟨d, rest⟩⟩⟩⟩
    · exact absurd rfl hne
    · exact (by decide : 1 ≤ 3)
    · exact (by decide : 2 ≤ 3)
    · exact (by decide : 3 ≤ 3)
    · exact absurd rfl (hlong a b c d rest)

/-- The first group has one to three characters, every other one has three. -/
theorem exists_groups (hne : cs ≠ []) :
    ∃ first rest, groups cs = first :: rest ∧ first ≠ [] ∧ first.length ≤ 3 ∧
      ∀ group ∈ rest, group.length = 3 := by
  obtain ⟨front, last, hpieces, hfront, hlast, hlength⟩ :=
    exists_threes (show cs.reverse ≠ [] by simpa using hne)
  refine ⟨last.reverse, (front.map List.reverse).reverse, ?_, by simpa using hlast,
    by simpa using hlength, ?_⟩
  · rw [groups, hpieces, List.map_append, List.reverse_append]
    rfl
  · intro group hgroup
    obtain ⟨piece, hpiece, rfl⟩ := List.mem_map.mp (List.mem_reverse.mp hgroup)
    rw [List.length_reverse, hfront piece hpiece]

/-- No separator stands in front. -/
theorem head?_grouped (hne : cs ≠ []) : (grouped separator cs).head? = cs.head? := by
  obtain ⟨first, rest, hgroups, hfirst, _, _⟩ := exists_groups hne
  have hflatten := flatten_groups cs
  rw [hgroups, List.flatten_cons] at hflatten
  rw [← hflatten, List.head?_append_of_ne_nil _ hfirst, grouped, hflatten, hgroups]
  cases rest with
  | nil => rw [List.intercalate_singleton]
  | cons second rest =>
    rw [List.intercalate_cons_cons, List.append_assoc, List.head?_append_of_ne_nil _ hfirst]

/-- Without separators, the pieces stand side by side. -/
theorem filter_intercalate (hseparator : separator.filter keep = []) (pieces : List (List Char)) :
    (separator.intercalate pieces).filter keep = pieces.flatten.filter keep := by
  unfold List.intercalate
  induction pieces with
  | nil => rfl
  | cons first pieces ih =>
    cases pieces with
    | nil => rfl
    | cons second pieces =>
      rw [List.intersperse_cons_cons, List.flatten_cons, List.flatten_cons, List.flatten_cons,
        List.filter_append, List.filter_append, List.filter_append, ih, hseparator, List.nil_append]

end Groups

/-! ### Texts of amounts -/

theorem filter_pointed {keep : Char → Bool} {fraction : List Char} (hpoint : keep '.' = true)
    (hfraction : ∀ c ∈ fraction, keep c = true) :
    (pointed fraction).filter keep = pointed fraction := by
  unfold pointed
  split
  · rfl
  · rw [List.filter_cons_of_pos hpoint, List.filter_eq_self.mpr hfraction]

/-- The parts of the text of an amount with `places` digits after the point. -/
structure AmountText (places : ℕ) where
  negative : Bool
  first : List Char
  rest : List (List Char)
  fraction : List Char
  first_ne_nil : first ≠ []
  first_length : first.length ≤ 3
  rest_length : ∀ group ∈ rest, group.length = 3
  whole_digits : ∀ c ∈ (first :: rest).flatten, c.isDigit = true
  fraction_digits : ∀ c ∈ fraction, c.isDigit = true
  fraction_length : fraction.length = places

namespace AmountText

variable {places : ℕ} (t : AmountText places) {keep : Char → Bool} {separator : List Char}

def whole : List Char := (t.first :: t.rest).flatten

/-- The text with separators between the groups; without places there is no point. -/
def text (separator : List Char) : List Char :=
  Decimal.signText t.negative ++
    (separator.intercalate (t.first :: t.rest) ++ pointed t.fraction)

/-- The text without separators. -/
def plain : List Char := Decimal.signText t.negative ++ (t.whole ++ pointed t.fraction)

/-- The decimal that the text writes down. -/
def decimal : Decimal := written t.negative t.whole t.fraction

theorem denotes : Denotes t.plain t.decimal.toRat :=
  denotes_written t.negative t.whole_digits (by simp [whole, t.first_ne_nil]) t.fraction_digits

/-- Separators are the only characters that are left out again. -/
theorem filter_text (hkeep : ∀ c, c = '-' ∨ c = '.' ∨ c.isDigit = true → keep c = true)
    (hseparator : separator.filter keep = []) : (t.text separator).filter keep = t.plain := by
  have hsign : (Decimal.signText t.negative).filter keep = Decimal.signText t.negative :=
    List.filter_eq_self.mpr fun c hc => hkeep c (Or.inl (Decimal.eq_of_mem_signText hc))
  have hwhole : t.whole.filter keep = t.whole :=
    List.filter_eq_self.mpr fun c hc => hkeep c (Or.inr (Or.inr (t.whole_digits c hc)))
  rw [text, List.filter_append, List.filter_append, hsign, filter_intercalate hseparator,
    filter_pointed (hkeep '.' (Or.inr (Or.inl rfl)))
      fun c hc => hkeep c (Or.inr (Or.inr (t.fraction_digits c hc)))]
  exact congrArg (fun cs => _ ++ (cs ++ _)) hwhole

end AmountText

/-! ### Laying out -/

section LaidOut

variable {z : Decimal} {places : ℕ} {cs whole fraction : List Char}

theorem laidOut_of_whole (places : ℕ) (separator : List Char) (hfront : ∀ c ∈ cs, c ≠ '.') :
    laidOut places separator cs = grouped separator cs ++ pointed (List.replicate places '0') := by
  have hdrop : cs.dropWhile (· ≠ '.') = [] :=
    List.dropWhile_eq_nil_iff.mpr fun c hc => decide_eq_true (hfront c hc)
  rw [laidOut, hdrop]
  simp only [Int.toNat_natCast]
  congr 1
  rcases Nat.eq_zero_or_pos places with rfl | hpos
  · rfl
  · rw [if_pos (by exact_mod_cast hpos), pointed,
      if_neg (List.ne_nil_of_length_pos (by simpa using hpos))]

theorem laidOut_of_point (separator : List Char) (hfront : ∀ c ∈ cs, c ≠ '.')
    (hplaces : fraction.length ≤ places) :
    laidOut places separator (cs ++ '.' :: fraction) = grouped separator cs ++
      '.' :: (fraction ++ List.replicate (places - fraction.length) '0') := by
  have hwhole : ∀ c ∈ cs, decide (c ≠ '.') = true := fun c hc => decide_eq_true (hfront c hc)
  have hlength : (fraction ++ List.replicate (places - fraction.length) '0').length = places := by
    rw [List.length_append, List.length_replicate]
    omega
  have hpadded : padded places fraction =
      fraction ++ List.replicate (places - fraction.length) '0' := by
    rw [padded, Int.toNat_natCast, List.take_of_length_le hlength.le]
  have hdrop : (cs ++ '.' :: fraction).dropWhile (· ≠ '.') = '.' :: fraction := by
    rw [List.dropWhile_append_of_pos hwhole, List.dropWhile_cons_of_neg (by decide)]
  have htake : (cs ++ '.' :: fraction).takeWhile (· ≠ '.') = cs := by
    rw [List.takeWhile_append_of_pos hwhole, List.takeWhile_cons_of_neg (by decide),
      List.append_nil]
  rw [laidOut, hdrop]
  simp only [htake, hpadded]

/-- The digits after the point are filled up with zeros. -/
theorem laidOut_pointed (separator : List Char) (hfront : ∀ c ∈ cs, c ≠ '.')
    (hplaces : fraction.length ≤ places) :
    laidOut places separator (cs ++ pointed fraction) = grouped separator cs ++
      pointed (fraction ++ List.replicate (places - fraction.length) '0') := by
  by_cases hnil : fraction = []
  · subst hnil
    rw [show cs ++ pointed [] = cs from List.append_nil cs]
    exact laidOut_of_whole places separator hfront
  · rw [pointed, if_neg hnil, laidOut_of_point separator hfront hplaces, pointed,
      if_neg (by simp [hnil])]

/-- Digits are laid out as an amount. -/
theorem exists_amountText (negative : Bool) (separator : List Char) (hne : whole ≠ [])
    (hwhole : ∀ c ∈ whole, c.isDigit = true) (hfraction : ∀ c ∈ fraction, c.isDigit = true)
    (hplaces : fraction.length ≤ places) :
    ∃ t : AmountText places,
      Decimal.signText negative ++ laidOut places separator (whole ++ pointed fraction) =
        t.text separator ∧
      t.decimal.toRat = (written negative whole fraction).toRat := by
  obtain ⟨first, rest, hgroups, hfirst, hlength, hrest⟩ := exists_groups hne
  have hflatten : (first :: rest).flatten = whole := by rw [← hgroups, flatten_groups]
  refine ⟨{ negative := negative
            first := first
            rest := rest
            fraction := fraction ++ List.replicate (places - fraction.length) '0'
            first_ne_nil := hfirst
            first_length := hlength
            rest_length := hrest
            whole_digits := by rwa [hflatten]
            fraction_digits := fun c hc =>
              (List.mem_append.mp hc).elim (hfraction c) isDigit_of_mem_zeros
            fraction_length := by
              rw [List.length_append, List.length_replicate]
              omega }, ?_, ?_⟩
  · have hfront : ∀ c ∈ whole, c ≠ '.' := fun c hc =>
      NumberText.ne_of_isDigit (hwhole c hc) (by decide)
    rw [AmountText.text, laidOut_pointed separator hfront hplaces, grouped, hgroups]
  · show (written negative (first :: rest).flatten
        (fraction ++ List.replicate (places - fraction.length) '0')).toRat = _
    rw [hflatten, toRat_written_zeros]

/-- What is laid out without a sign gets one in front. -/
theorem exists_laidOut_signed (separator : List Char) (hnegative : z.negative = false)
    (hz : -(places : ℤ) ≤ z.exponent) (negative : Bool) :
    ∃ t : AmountText places,
      Decimal.signText negative ++ laidOut places separator z.plain = t.text separator ∧
        t.decimal.toRat = if negative then -z.toRat else z.toRat := by
  obtain ⟨whole, fraction, hplain, hne, hwhole, hfraction, hlength, hvalue⟩ := exists_plain z
  rw [hnegative] at hplain hvalue
  obtain ⟨t, htext, ht⟩ :=
    exists_amountText negative separator hne hwhole hfraction (by omega : fraction.length ≤ places)
  refine ⟨t, ?_, ?_⟩
  · rw [← htext, hplain]
    rfl
  · rw [ht, ← hvalue]
    cases negative with
    | false => rfl
    | true => exact Decimal.toRat_flip (written false whole fraction)

theorem plain_of_isZero (hzero : z.isZero = true) :
    z.plain = Decimal.signText z.negative ++
      (['0'] ++ pointed (List.replicate (-z.exponent).toNat '0')) := by
  have hdigits : Decimal.digitText z.coefficient = ['0'] := by
    rw [beq_iff_eq.mp hzero]
    rfl
  unfold Decimal.plain
  simp only [hzero, hdigits, true_and]
  rcases Int.lt_or_le z.exponent 0 with hneg | hwhole
  · obtain ⟨n, hn⟩ : ∃ n, (-z.exponent).toNat = n + 1 := ⟨(-z.exponent).toNat - 1, by omega⟩
    rw [if_neg (by omega), if_neg (by omega), hn, pointed, if_neg (by simp), Decimal.withPoint,
      if_neg (by omega), if_neg (by simp), List.replicate_succ']
    rfl
  · have hnone : (-z.exponent).toNat = 0 := by omega
    rw [if_pos hwhole, hnone]
    rfl

/-- The sign of a zero stands with its only digit, in one group. -/
theorem exists_laidOut_isZero (separator : List Char) (hzero : z.isZero = true)
    (hz : -(places : ℤ) ≤ z.exponent) :
    ∃ t : AmountText places, laidOut places separator z.plain = t.text separator ∧
      t.decimal.toRat = z.toRat := by
  have hlength : (List.replicate (-z.exponent).toNat '0').length ≤ places := by
    rw [List.length_replicate]
    omega
  obtain ⟨t, htext, ht⟩ := exists_amountText z.negative separator
    (List.cons_ne_nil '0' []) (fun _ => isDigit_of_mem_zeros (n := 1))
    (fun _ => isDigit_of_mem_zeros) hlength
  refine ⟨t, ?_, ?_⟩
  · have hfront : ∀ c ∈ Decimal.signText z.negative ++ ['0'], c ≠ '.' := by
      intro c hc
      rcases List.mem_append.mp hc with hc | hc
      · rw [Decimal.eq_of_mem_signText hc]
        decide
      · rw [List.mem_singleton.mp hc]
        decide
    have hgrouped : grouped separator (Decimal.signText z.negative ++ ['0']) =
        Decimal.signText z.negative ++ grouped separator ['0'] := by
      cases z.negative <;> rfl
    rw [← htext, plain_of_isZero hzero, ← List.append_assoc,
      laidOut_pointed separator hfront hlength, hgrouped,
      laidOut_pointed separator (by simp) hlength, List.append_assoc]
  · have hvalue :
        (written z.negative ['0'] (List.replicate (-z.exponent).toNat '0')).toRat = 0 := by
      rw [Decimal.toRat_eq_zero]
      exact digitsValue_zeros ((-z.exponent).toNat + 1)
    rw [ht, hvalue, (Decimal.isZero_iff z).mp hzero]

end LaidOut

/-! ### Rounding an amount -/

section Rounding

variable {x y : Decimal} {places : ℕ} {keep : Char → Bool} {separator : List Char}

/-- An amount is rounded to its places. A negative one is laid out without its sign. -/
theorem amount_eq (separator : List Char) (hx : x.Displayable) (hplaces : places ≤ mostPlaces) :
    amount places separator (.finite x) =
      if (x.toExponent .away (-(places : ℤ))).negative &&
          !(x.toExponent .away (-(places : ℤ))).isZero then do
        let z ← lift (ordinary.minus (x.toExponent .away (-(places : ℤ))))
        .ok ('-' :: laidOut places separator z.plain)
      else .ok (laidOut places separator (x.toExponent .away (-(places : ℤ))).plain) := by
  obtain ⟨room, hroom, hties, hdigits, hprecision⟩ :=
    exists_roomFor places hplaces hx.exponent_ge hx.adjusted_le
  unfold amount
  simp only [unitExponent_eq hplaces, hroom, requireFinite, lift, Except.mapError, ok_bind,
    quantize_eq_ok hx hplaces hties hdigits hprecision]

/-- The magnitude of a negative amount is rounded to 28 digits. -/
theorem exists_minus_eq_significant (hnonzero : y.isZero = false)
    (hy : Context.WithinExponents y.toRat) :
    ∃ z, ordinary.minus y = .ok z ∧ z.negative = (!y.negative) ∧ y.exponent ≤ z.exponent ∧
      z.toRat = -significant 28 y.toRat ∧ HasDigits 28 (significant 28 y.toRat) := by
  have hflip : Context.WithinExponents y.flip.toRat := by
    unfold Context.WithinExponents
    rwa [Decimal.toRat_flip, neg_eq_zero, abs_neg]
  obtain ⟨z, hz, hvalue⟩ :=
    Context.exists_round_eq_significant (c := ordinary) rfl (by decide) hflip
  have hminus : ordinary.minus y = .ok z := by
    rw [Context.minus, if_neg (by simp [hnonzero])]
    exact hz
  have hopposite : z.toRat = -significant 28 y.toRat := by
    rw [hvalue, Decimal.toRat_flip, significant_neg]
    rfl
  have hdigits := Decimal.hasDigits_of_digits_le
    (Context.contains_of_round (c := ordinary) (by decide) hz).digits_le
  refine ⟨z, hminus, Context.negative_of_round hz,
    Context.exponent_le_of_round (x := y.flip) hnonzero hz, hopposite, ?_⟩
  obtain ⟨c, e, hc, habs⟩ := hdigits
  exact ⟨c, e, hc, by rw [← habs, hopposite, abs_neg]⟩

/-- An amount that has been rounded to its places is between the ends of the exponent range. -/
theorem withinExponents_toExponent (hx : x.Moderate) (hplaces : places ≤ mostPlaces) (ties : Ties) :
    Context.WithinExponents (x.toExponent ties (-(places : ℤ))).toRat := by
  have hmost : mostPlaces = 900000 := rfl
  have hlow := Decimal.toExponent_exponent ties x (-(places : ℤ))
  have hhigh := Decimal.adjusted_toExponent_le ties x (-(places : ℤ))
  have hadjusted := hx.adjusted_mem
  generalize x.toExponent ties (-(places : ℤ)) = y at hlow hhigh
  cases hzero : y.isZero with
  | true => exact Or.inl ((Decimal.isZero_iff y).mp hzero)
  | false =>
    have hpos := y.digits_pos
    have hfirst : y.adjusted = y.exponent + y.digits - 1 := rfl
    right
    rw [Decimal.abs_toRat]
    constructor
    · refine (zpow_le_zpow_right₀ (by norm_num) ?_).trans (Decimal.le_magnitude hzero)
      simp only [Context.minExponent]
      omega
    · refine y.magnitude_lt.trans_le (zpow_le_zpow_right₀ (by norm_num) ?_)
      simp only [Context.maxExponent]
      omega

/-- What is left out are separators only. -/
theorem keep_of_not_separator
    (hseparator : ∀ c ∈ separator, c.isDigit = false ∧ c ≠ '-' ∧ c ≠ '.') (c : Char)
    (hc : c = '-' ∨ c = '.' ∨ c.isDigit = true) : (!separator.contains c) = true := by
  rw [Bool.not_eq_true', ← Bool.not_eq_true, List.contains_iff_mem]
  intro hmem
  obtain ⟨hdigit, hminus, hpoint⟩ := hseparator c hmem
  rcases hc with rfl | rfl | hc
  · exact hminus rfl
  · exact hpoint rfl
  · rw [hdigit] at hc
    cases hc

/-- An amount has a text, which writes the value rounded to its places; and if it is negative, these
digits are rounded once more. -/
theorem exists_amount_text (hx : x.Displayable) (hplaces : places ≤ mostPlaces)
    (separator : List Char)
    (hwithin : x.negative = true → Context.WithinExponents (roundedTo places x.toRat)) :
    ∃ t : AmountText places, amount places separator (.finite x) = .ok (t.text separator) ∧
      if x.negative then t.decimal.toRat = significant 28 (roundedTo places x.toRat) ∧
        HasDigits 28 t.decimal.toRat
      else t.decimal.toRat = roundedTo places x.toRat := by
  have hvalue := x.toRat_toExponent_away places
  have hexponent := Decimal.toExponent_exponent .away x (-(places : ℤ))
  have hsign := Decimal.negative_toExponent .away x (-(places : ℤ))
  rw [← hsign, ← hvalue] at hwithin ⊢
  rw [amount_eq separator hx hplaces]
  generalize x.toExponent .away (-(places : ℤ)) = y at hexponent hwithin
  cases hzero : y.isZero with
  | true =>
    obtain ⟨t, htext, ht⟩ := exists_laidOut_isZero separator hzero hexponent.ge
    have hnone : y.toRat = 0 := (Decimal.isZero_iff y).mp hzero
    refine ⟨t, ?_, ?_⟩
    · rw [← htext, Bool.not_true, Bool.and_false]
      rfl
    · rw [ht, hnone, significant_zero]
      split
      · exact ⟨rfl, 0, 0, by norm_num, by norm_num⟩
      · rfl
  | false =>
    cases hminus : y.negative with
    | true =>
      obtain ⟨z, hz, hznegative, hle, hzvalue, hdigits⟩ :=
        exists_minus_eq_significant hzero (hwithin hminus)
      rw [hminus, Bool.not_true] at hznegative
      obtain ⟨t, htext, ht⟩ :=
        exists_laidOut_signed separator hznegative (hexponent.ge.trans hle) true
      rw [if_pos rfl, hzvalue, neg_neg] at ht
      refine ⟨t, ?_, ?_⟩
      · rw [← htext, hz]
        rfl
      · rw [if_pos rfl, ht]
        exact ⟨rfl, hdigits⟩
    | false =>
      obtain ⟨t, htext, ht⟩ := exists_laidOut_signed separator hminus hexponent.ge false
      refine ⟨t, ?_, ht⟩
      rw [← htext]
      rfl

/-- An amount is shown, and without its separators it denotes the value rounded half away from zero.
The magnitude of a negative amount is rounded once more, so it is to have 28 digits at most. -/
theorem exists_amount (hkeep : ∀ c, c = '-' ∨ c = '.' ∨ c.isDigit = true → keep c = true)
    (hseparator : separator.filter keep = []) (hx : x.Displayable) (hplaces : places ≤ mostPlaces)
    (hnegative : x.negative = true → Representable (roundedTo places x.toRat)) :
    ∃ text, amount places separator (.finite x) = .ok text ∧
      Denotes (text.filter keep) (roundedTo places x.toRat) := by
  obtain ⟨t, htext, hvalue⟩ := exists_amount_text hx hplaces separator
    fun hminus => (hnegative hminus).withinExponents
  refine ⟨_, htext, ?_⟩
  have hexact : t.decimal.toRat = roundedTo places x.toRat := by
    split at hvalue
    · next hminus =>
      rw [hvalue.1, significant_of_hasDigits (hnegative hminus).hasDigits]
    · exact hvalue
  rw [t.filter_text hkeep hseparator, ← hexact]
  exact t.denotes

/-- An amount is shown in groups of three digits, with so many places, and without the separators it
denotes the value rounded half away from zero to these places, if it is not negative. A negative one
is rounded again to 28 significant digits, a half to even, and the number that is shown is the right
one exactly if the first rounding leaves no more digits than that. -/
theorem amount_laid_out (hx : x.Moderate) (hplaces : places ≤ mostPlaces)
    (hseparator : ∀ c ∈ separator, c.isDigit = false ∧ c ≠ '-' ∧ c ≠ '.') :
    ∃ t : AmountText places, amount places separator (.finite x) = .ok (t.text separator) ∧
      (t.text separator).filter (!separator.contains ·) = t.plain ∧
      Denotes t.plain (if x.negative then significant 28 (roundedTo places x.toRat)
        else roundedTo places x.toRat) ∧
      (Denotes t.plain (roundedTo places x.toRat) ↔
        (x.negative = true → HasDigits 28 (roundedTo places x.toRat))) := by
  obtain ⟨t, htext, hvalue⟩ := exists_amount_text hx.displayable hplaces separator
    fun _ => x.toRat_toExponent_away places ▸ withinExponents_toExponent hx hplaces .away
  refine ⟨t, htext, t.filter_text (keep_of_not_separator hseparator) (by simp), ?_⟩
  cases hminus : x.negative with
  | false =>
    rw [hminus, if_neg Bool.false_ne_true] at hvalue
    rw [if_neg Bool.false_ne_true, ← hvalue]
    exact ⟨t.denotes, iff_of_true t.denotes fun h => absurd h Bool.false_ne_true⟩
  | true =>
    rw [hminus, if_pos rfl] at hvalue
    obtain ⟨hvalue, hdigits⟩ := hvalue
    rw [if_pos rfl, ← hvalue]
    refine ⟨t.denotes, fun hdenotes _ => ?_, fun hshort => ?_⟩
    · rwa [← denotes_unique t.denotes hdenotes]
    · rw [← significant_of_hasDigits (hshort rfl), ← hvalue]
      exact t.denotes

/-- The amount is negative, and 28 digits are enough for it. -/
theorem amount_laid_out_of_half :
    amount 2 standardSeparator (.finite ⟨true, 10000005, -1⟩) = .ok "-1’000’000.50".toList ∧
      Denotes "-1000000.50".toList (roundedTo 2 (Decimal.toRat ⟨true, 10000005, -1⟩)) := by
  have hshown : amount 2 standardSeparator (.finite ⟨true, 10000005, -1⟩) =
      .ok "-1’000’000.50".toList := by decide +kernel
  have hmoderate : Decimal.Moderate ⟨true, 10000005, -1⟩ := ⟨by decide, by decide +kernel⟩
  have hseparator : ∀ c ∈ standardSeparator, c.isDigit = false ∧ c ≠ '-' ∧ c ≠ '.' := by
    intro c hc
    rw [List.mem_singleton.mp hc]
    decide
  obtain ⟨t, htext, hfilter, _, hexact⟩ :=
    amount_laid_out hmoderate (show 2 ≤ mostPlaces by decide) hseparator
  have hplain : t.plain = "-1000000.50".toList := by
    rw [← hfilter, Except.ok.inj (htext.symm.trans hshown)]
    decide +kernel
  rw [hplain] at hexact
  refine ⟨hshown, hexact.mpr fun _ => ?_⟩
  rw [Decimal.roundedTo_toRat_of_le (by decide)]
  exact Decimal.hasDigits_of_digits_le (by decide +kernel)

/-- The last of 29 digits is lost when the sign is taken off. -/
theorem long_negative_amount_altered :
    amount 2 standardSeparator (.finite ⟨true, 12345678901234567890123456789, 0⟩) =
        .ok "-12’345’678’901’234’567’890’123’456’790.00".toList ∧
      ¬ Denotes "-12345678901234567890123456790.00".toList
        (roundedTo 2 (Decimal.toRat ⟨true, 12345678901234567890123456789, 0⟩)) := by
  refine ⟨by decide +kernel, fun hdenotes => ?_⟩
  have hread : Denotes "-12345678901234567890123456790.00".toList
      (Decimal.toRat ⟨true, 1234567890123456789012345679000, -2⟩) := ⟨_, by decide +kernel, rfl⟩
  have hsame := denotes_unique hdenotes hread
  rw [Decimal.roundedTo_toRat_of_le (by decide)] at hsame
  norm_num [Decimal.toRat, Decimal.magnitude] at hsame

end Rounding

/-! ### The sign of an amount -/

section Sign

variable {x : Decimal} {places : ℤ} {separator text : List Char}

theorem exists_plain_cons (z : Decimal) :
    ∃ c cs, z.plain = c :: cs ∧ c ≠ '.' ∧ (c = '-' ↔ z.negative = true) := by
  obtain ⟨whole, fraction, hplain, hne, hwhole, _⟩ := exists_plain z
  cases hminus : z.negative with
  | true => exact ⟨'-', _, by rw [hplain, hminus]; rfl, by decide, by simp⟩
  | false =>
    obtain ⟨c, cs, rfl⟩ := List.exists_cons_of_ne_nil hne
    have hdigit := hwhole c List.mem_cons_self
    refine ⟨c, cs ++ pointed fraction, by rw [hplain, hminus]; rfl,
      NumberText.ne_of_isDigit hdigit (by decide), ?_⟩
    exact iff_of_false (NumberText.ne_of_isDigit hdigit (by decide)) Bool.false_ne_true

theorem head?_laidOut (places : ℤ) (separator : List Char) {c : Char} (hc : c ≠ '.')
    (cs : List Char) : (laidOut places separator (c :: cs)).head? = some c := by
  have hgrouped : ∀ ds, (grouped separator (c :: ds)).head? = some c := fun ds =>
    head?_grouped (List.cons_ne_nil c ds)
  have hwhole : (c :: cs).takeWhile (· ≠ '.') = c :: cs.takeWhile (· ≠ '.') :=
    List.takeWhile_cons_of_pos (decide_eq_true hc)
  unfold laidOut
  split
  · rw [List.head?_append, hgrouped, Option.some_or]
  · rw [List.head?_append, hwhole, hgrouped, Option.some_or]

/-- The sign that is written is the value's own, also where the value is rounded to zero. -/
theorem head?_amount (h : amount places separator (.finite x) = .ok text) :
    text.head? = some '-' ↔ x.negative = true := by
  obtain ⟨e, _, h⟩ := bind_eq_ok.mp h
  obtain ⟨room, _, h⟩ := bind_eq_ok.mp h
  obtain ⟨x', hx', h⟩ := bind_eq_ok.mp h
  obtain rfl : x = x' := Except.ok.inj hx'
  obtain ⟨y, hy, h⟩ := bind_eq_ok.mp h
  rw [← Context.negative_of_quantize (mapError_eq_ok.mp hy)]
  split at h
  · next hminus =>
    obtain ⟨z, _, h⟩ := bind_eq_ok.mp h
    cases h
    exact iff_of_true rfl (Bool.and_eq_true_iff.mp hminus).1
  · cases h
    obtain ⟨c, cs, hplain, hc, hsign⟩ := exists_plain_cons y
    rw [hplain, head?_laidOut places separator hc, Option.some_inj, hsign]

end Sign

/-! ### The characters of amounts -/

section Characters

variable {separator cs : List Char} {places : ℤ} {c : Char}

theorem mem_of_mem_intercalate {pieces : List (List Char)} (h : c ∈ separator.intercalate pieces) :
    c ∈ separator ∨ c ∈ pieces.flatten := by
  by_contra hnone
  rw [not_or] at hnone
  have hseparator : separator.filter (· = c) = [] := by
    rw [List.filter_eq_nil_iff]
    exact fun d hd heq => hnone.1 (of_decide_eq_true heq ▸ hd)
  have hfilter := filter_intercalate hseparator pieces
  have hmem : c ∈ (separator.intercalate pieces).filter (· = c) :=
    List.mem_filter.mpr ⟨h, decide_eq_true rfl⟩
  rw [hfilter] at hmem
  exact hnone.2 (List.mem_filter.mp hmem).1

theorem mem_of_mem_grouped (h : c ∈ grouped separator cs) : c ∈ separator ∨ c ∈ cs := by
  have hmem := mem_of_mem_intercalate h
  rwa [flatten_groups] at hmem

theorem mem_of_mem_padded (h : c ∈ padded places cs) : c ∈ cs ∨ c = '0' := by
  rcases List.mem_append.mp (List.mem_of_mem_take h) with hc | hc
  · exact Or.inl hc
  · exact Or.inr (List.mem_replicate.mp hc).2

/-- Only separators, a point and zeros are put in. -/
theorem mem_of_mem_laidOut (h : c ∈ laidOut places separator cs) :
    c ∈ separator ∨ c ∈ cs ∨ c = '.' ∨ c = '0' := by
  unfold laidOut at h
  split at h
  · rcases List.mem_append.mp h with hc | hc
    · rcases mem_of_mem_grouped hc with hc | hc
      · exact Or.inl hc
      · exact Or.inr (Or.inl hc)
    · split at hc
      · rcases List.mem_cons.mp hc with hc | hc
        · exact Or.inr (Or.inr (Or.inl hc))
        · exact Or.inr (Or.inr (Or.inr (List.mem_replicate.mp hc).2))
      · cases hc
  · next d fraction hdrop =>
    have hfraction : ∀ d ∈ fraction, d ∈ cs := fun d hd =>
      (List.dropWhile_suffix _).subset (hdrop ▸ List.mem_cons_of_mem _ hd)
    rcases List.mem_append.mp h with hc | hc
    · rcases mem_of_mem_grouped hc with hc | hc
      · exact Or.inl hc
      · exact Or.inr (Or.inl ((List.takeWhile_prefix _).subset hc))
    · rcases List.mem_cons.mp hc with hc | hc
      · exact Or.inr (Or.inr (Or.inl hc))
      · rcases mem_of_mem_padded hc with hc | hc
        · exact Or.inr (Or.inl (hfraction c hc))
        · exact Or.inr (Or.inr (Or.inr hc))

theorem mem_plain {z : Decimal} (h : c ∈ z.plain) : c = '-' ∨ c = '.' ∨ c.isDigit = true := by
  obtain ⟨whole, fraction, hplain, _, hwhole, hfraction, _⟩ := exists_plain z
  rw [hplain] at h
  rcases List.mem_append.mp h with hc | hc
  · exact Or.inl (Decimal.eq_of_mem_signText hc)
  · rcases List.mem_append.mp hc with hc | hc
    · exact Or.inr (Or.inr (hwhole c hc))
    · unfold pointed at hc
      split at hc
      · cases hc
      · rcases List.mem_cons.mp hc with hc | hc
        · exact Or.inr (Or.inl hc)
        · exact Or.inr (Or.inr (hfraction c hc))

/-- An amount consists of digits, a sign, a point and separators. -/
theorem mem_amount {value : Extended} {text : List Char}
    (h : amount places separator value = .ok text) (hc : c ∈ text) :
    c ∈ separator ∨ c = '-' ∨ c = '.' ∨ c.isDigit = true := by
  have hlaidOut : ∀ {z : Decimal}, c ∈ laidOut places separator z.plain →
      c ∈ separator ∨ c = '-' ∨ c = '.' ∨ c.isDigit = true := by
    intro z hmem
    rcases mem_of_mem_laidOut hmem with hmem | hmem | rfl | rfl
    · exact Or.inl hmem
    · exact Or.inr (mem_plain hmem)
    · exact Or.inr (Or.inr (Or.inl rfl))
    · exact Or.inr (Or.inr (Or.inr rfl))
  obtain ⟨_, _, h⟩ := bind_eq_ok.mp h
  obtain ⟨_, _, h⟩ := bind_eq_ok.mp h
  obtain ⟨_, _, h⟩ := bind_eq_ok.mp h
  obtain ⟨y, _, h⟩ := bind_eq_ok.mp h
  split at h
  · obtain ⟨z, _, h⟩ := bind_eq_ok.mp h
    cases h
    rcases List.mem_cons.mp hc with rfl | hc
    · exact Or.inr (Or.inl rfl)
    · exact hlaidOut hc
  · cases h
    exact hlaidOut hc

end Characters

end Display

end PocketCalculator
