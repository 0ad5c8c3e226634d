import PocketCalculator.Expression.Numeral
import PocketCalculator.Proofs.Display.Places
import PocketCalculator.Proofs.Expression.Literal

/-!
# What shown texts denote

The calculator's own reader of numerals takes plain digits for the decimal that they write
(`denotes_plain`), and so a shown number for the value rounded to the display's places
(`exists_number`).
-/

namespace PocketCalculator

-- Powers are the core library's, also where other power instances are imported.
attribute [local instance (1200)] instPowNat

/-- The text is a numeral for `q`. -/
def Denotes (text : List Char) (q : ℚ) : Prop := ∃ d, readNumeral text = .ok d ∧ d.toRat = q

/-! ### Values of digits -/

theorem digitsValue_append (cs ds : List Char) :
    digitsValue (cs ++ ds) = digitsValue cs * 10 ^ ds.length + digitsValue ds := by
  have hfold : ∀ (ds : List Char) (n : ℕ),
      ds.foldl (fun n c => 10 * n + (digitValue? c).getD 0) n =
        n * 10 ^ ds.length + digitsValue ds := by
    intro ds
    induction ds with
    | nil =>
      intro n
      simp [digitsValue]
    | cons d ds ih =>
      intro n
      have hcons : digitsValue (d :: ds) =
          (10 * 0 + (digitValue? d).getD 0) * 10 ^ ds.length + digitsValue ds := ih _
      rw [List.foldl_cons, ih, hcons, List.length_cons, Nat.pow_succ]
      ring
  rw [digitsValue, List.foldl_append]
  exact hfold ds _

theorem digitValue?_digitChar {d : ℕ} (h : d < 10) : digitValue? d.digitChar = some d := by
  revert d
  decide

theorem digitsValue_zeros (n : ℕ) : digitsValue (List.replicate n '0') = 0 := by
  induction n with
  | zero => rfl
  | succ n ih =>
    rw [List.replicate_succ', digitsValue_append, ih]
    rfl

/-- The digits of a number have its value. -/
theorem digitsValue_digitText (n : ℕ) : digitsValue (Decimal.digitText n) = n := by
  have hsingle : ∀ d < 10, digitsValue [d.digitChar] = d := by
    intro d hd
    simp [digitsValue, digitValue?_digitChar hd]
  induction n using Nat.strongRecOn with
  | ind n ih =>
    rw [Decimal.digitText_eq]
    split
    · next hlt => exact hsingle n hlt
    · next hge =>
      rw [digitsValue_append, ih (n / 10) (by omega), hsingle _ (Nat.mod_lt n (by decide))]
      simp only [List.length_singleton]
      omega

theorem isDecimalDigit_of_isDigit {c : Char} (h : c.isDigit = true) : isDecimalDigit c = true := by
  obtain ⟨hlow, hhigh⟩ : 48 ≤ c.toNat ∧ c.toNat ≤ 57 := by
    simpa [Char.isDigit, UInt32.le_iff_toNat_le] using h
  have hfirst : (decide (0x30 ≤ c.toNat) && decide (c.toNat < 0x30 + 10)) = true := by
    simp only [Bool.and_eq_true, decide_eq_true_eq]
    omega
  simp only [isDecimalDigit, digitValue?, decimalZeros, List.find?_cons, hfirst]
  rfl

/-! ### Numerals -/

section Numerals

variable {body whole fraction : List Char} {negative : Bool} {fixed : ℕ × ℕ}

theorem plainSign_of_isNumberChar {c : Char} (h : isNumberChar c = true) : plainSign c = c := by
  unfold plainSign
  split
  · exact absurd h (by decide)
  · exact absurd h (by decide)
  · exact absurd h (by decide)
  · exact absurd h (by decide)
  · rfl

theorem normalizeText_signed (hbody : ∀ c ∈ body, isNumberChar c = true) :
    normalizeText (Decimal.signText negative ++ body) = Decimal.signText negative ++ body := by
  have hchars : ∀ c ∈ Decimal.signText negative ++ body, isBlank c = false ∧ plainSign c = c := by
    intro c hc
    rcases List.mem_append.mp hc with hc | hc
    · rw [Decimal.eq_of_mem_signText hc]
      decide
    · exact ⟨isBlank_of_isNumberChar (hbody c hc), plainSign_of_isNumberChar (hbody c hc)⟩
  rw [normalizeText, trim_eq_self fun c hc => (hchars c hc).1]
  exact (List.map_congr_left fun c hc => (hchars c hc).2).trans (List.map_id _)

theorem readNumeral_signed (hbody : ∀ c ∈ body, isNumberChar c = true)
    (hfixed : readFixed? body = some fixed) :
    readNumeral (Decimal.signText negative ++ body) = .ok ⟨negative, fixed.1, -(fixed.2 : ℤ)⟩ := by
  have hsign : splitSign (Decimal.signText negative ++ body) = (negative, body) := by
    cases negative with
    | true => rfl
    | false => exact splitSign_of_isNumberChar hbody
  simp only [readNumeral, normalizeText_signed hbody, hsign, hfixed]

theorem readFixed?_pointed (hwhole : ∀ c ∈ whole, isDecimalDigit c = true) (hne : whole ≠ [])
    (hfraction : ∀ c ∈ fraction, isDecimalDigit c = true) :
    readFixed? (whole ++ Display.pointed fraction) =
      some (digitsValue (whole ++ fraction), fraction.length) := by
  unfold Display.pointed
  split
  · next hnil =>
    rw [hnil, List.append_nil]
    exact readFixed?_whole hwhole hne
  · refine readFixed?_point hwhole hfraction ?_
    rw [List.isEmpty_eq_false_iff.mpr hne, Bool.false_and]

/-- The decimal that is written with these digits before and after the point. -/
def written (negative : Bool) (whole fraction : List Char) : Decimal :=
  ⟨negative, digitsValue (whole ++ fraction), -(fraction.length : ℤ)⟩

theorem denotes_written (negative : Bool) (hwhole : ∀ c ∈ whole, c.isDigit = true)
    (hne : whole ≠ []) (hfraction : ∀ c ∈ fraction, c.isDigit = true) :
    Denotes (Decimal.signText negative ++ (whole ++ Display.pointed fraction))
      (written negative whole fraction).toRat := by
  have hwhole' : ∀ c ∈ whole, isDecimalDigit c = true := fun c hc =>
    isDecimalDigit_of_isDigit (hwhole c hc)
  have hfraction' : ∀ c ∈ fraction, isDecimalDigit c = true := fun c hc =>
    isDecimalDigit_of_isDigit (hfraction c hc)
  have hchars : ∀ c ∈ whole ++ Display.pointed fraction, isNumberChar c = true := by
    intro c hc
    rcases List.mem_append.mp hc with hc | hc
    · exact isNumberChar_of_isDecimalDigit (hwhole' c hc)
    · rcases Display.mem_pointed hc with rfl | hc
      · decide
      · exact isNumberChar_of_isDecimalDigit (hfraction' c hc)
  exact ⟨_, readNumeral_signed hchars (readFixed?_pointed hwhole' hne hfraction'), rfl⟩

theorem toRat_written_zeros (negative : Bool) (whole fraction : List Char) (n : ℕ) :
    (written negative whole (fraction ++ List.replicate n '0')).toRat =
      (written negative whole fraction).toRat := by
  have hmagnitude : (written negative whole (fraction ++ List.replicate n '0')).magnitude =
      (written negative whole fraction).magnitude := by
    simp only [written, Decimal.magnitude, ← List.append_assoc]
    rw [digitsValue_append (whole ++ fraction), digitsValue_zeros, List.length_append,
      List.length_replicate, Nat.add_zero, Nat.cast_mul, Nat.cast_pow, Nat.cast_ofNat, mul_assoc,
      ← zpow_natCast, ← zpow_add₀ (by norm_num)]
    congr 2
    omega
  simp only [Decimal.toRat, hmagnitude]
  rfl

end Numerals

namespace Display

variable {x : Decimal}

/-! ### Plain digits -/

/-- A point among digits leaves them a whole part, and so many digits after it. -/
theorem exists_withPoint {digits : List Char} (hdigits : ∀ c ∈ digits, c.isDigit = true)
    {places : ℕ} (hplaces : 0 < places) :
    ∃ whole fraction, Decimal.withPoint digits places = whole ++ pointed fraction ∧ whole ≠ [] ∧
      (∀ c ∈ whole, c.isDigit = true) ∧ (∀ c ∈ fraction, c.isDigit = true) ∧
      fraction.length = places ∧ digitsValue (whole ++ fraction) = digitsValue digits := by
  have hpointed : ∀ fraction : List Char, fraction.length = places →
      pointed fraction = '.' :: fraction := by
    rintro fraction rfl
    exact if_neg (List.ne_nil_of_length_pos hplaces)
  unfold Decimal.withPoint
  rw [if_neg (Nat.ne_of_gt hplaces)]
  split
  · next hlong =>
    have hlength : (digits.drop (digits.length - places)).length = places := by
      rw [List.length_drop]
      omega
    refine ⟨digits.take (digits.length - places), digits.drop (digits.length - places), ?_, ?_,
      fun c hc => hdigits c (List.mem_of_mem_take hc),
      fun c hc => hdigits c (List.mem_of_mem_drop hc), hlength, ?_⟩
    · rw [hpointed _ hlength]
    · refine List.ne_nil_of_length_pos ?_
      rw [List.length_take]
      omega
    · rw [List.take_append_drop]
  · next hshort =>
    have hlength : (List.replicate (places - digits.length) '0' ++ digits).length = places := by
      rw [List.length_append, List.length_replicate]
      omega
    refine ⟨['0'], List.replicate (places - digits.length) '0' ++ digits, ?_,
      List.cons_ne_nil _ _, fun _ => isDigit_of_mem_zeros (n := 1),
      fun c hc => (List.mem_append.mp hc).elim isDigit_of_mem_zeros (hdigits c), hlength, ?_⟩
    · rw [hpointed _ hlength]
      rfl
    · have hzeros := digitsValue_zeros (1 + (places - digits.length))
      rw [← List.append_assoc, digitsValue_append, show ['0'] = List.replicate 1 '0' from rfl,
        List.replicate_append_replicate, hzeros, Nat.zero_mul, Nat.zero_add]

/-- Plain digits have a whole part, a fraction as long as the exponent says, and the value. -/
theorem exists_plain (z : Decimal) :
    ∃ whole fraction, z.plain = Decimal.signText z.negative ++ (whole ++ pointed fraction) ∧
      whole ≠ [] ∧ (∀ c ∈ whole, c.isDigit = true) ∧ (∀ c ∈ fraction, c.isDigit = true) ∧
      fraction.length = (-z.exponent).toNat ∧
      (written z.negative whole fraction).toRat = z.toRat := by
  have hdigits : ∀ c ∈ Decimal.digitText z.coefficient, c.isDigit = true :=
    fun _ => Decimal.isDigit_of_mem_digitText
  have hne := Decimal.digitText_ne_nil z.coefficient
  have hvalue := digitsValue_digitText z.coefficient
  rcases Int.lt_or_le z.exponent 0 with hneg | hwhole
  · obtain ⟨whole, fraction, htext, hwhole, hwholeDigits, hfraction, hlength, hsame⟩ :=
      exists_withPoint hdigits (show 0 < (-z.exponent).toNat by omega)
    refine ⟨whole, fraction, ?_, hwhole, hwholeDigits, hfraction, hlength, ?_⟩
    · rw [← htext, Decimal.plain, if_neg (by omega), if_neg (by omega)]
    · have hwritten : written z.negative whole fraction = z := by
        have hexponent : -(fraction.length : ℤ) = z.exponent := by omega
        rw [written, hsame, hvalue, hexponent]
      rw [hwritten]
  · have hlength : (-z.exponent).toNat = 0 := by omega
    by_cases hzero : z.isZero = true
    · refine ⟨['0'], [], ?_, List.cons_ne_nil _ _, fun _ => isDigit_of_mem_zeros (n := 1),
        fun _ hc => (List.not_mem_nil hc).elim, hlength.symm, ?_⟩
      · simp [Decimal.plain, hzero, hwhole, pointed]
      · rw [(Decimal.isZero_iff z).mp hzero, Decimal.toRat_eq_zero]
        rfl
    · refine ⟨Decimal.digitText z.coefficient ++ List.replicate z.exponent.toNat '0', [], ?_, ?_,
        ?_, fun _ hc => (List.not_mem_nil hc).elim, hlength.symm, ?_⟩
      · simp [Decimal.plain, hzero, hwhole, pointed]
      · simp [hne]
      · exact fun c hc => (List.mem_append.mp hc).elim (hdigits c) isDigit_of_mem_zeros
      · have hmagnitude : (written z.negative (Decimal.digitText z.coefficient ++
            List.replicate z.exponent.toNat '0') []).magnitude = z.magnitude := by
          simp only [written, Decimal.magnitude, List.append_nil, List.length_nil]
          rw [digitsValue_append, digitsValue_zeros, hvalue, List.length_replicate]
          have hexponent : (10 : ℚ) ^ z.exponent = 10 ^ z.exponent.toNat := by
            rw [← zpow_natCast, Int.toNat_of_nonneg hwhole]
          rw [hexponent]
          simp
        simp only [Decimal.toRat, hmagnitude]
        rfl

theorem denotes_plain (z : Decimal) : Denotes z.plain z.toRat := by
  obtain ⟨whole, fraction, hplain, hne, hwhole, hfraction, _, hvalue⟩ := exists_plain z
  rw [hplain, ← hvalue]
  exact denotes_written z.negative hwhole hne hfraction

/-- A number is shown, and what is shown is the value rounded half away from zero. -/
theorem exists_number {places : ℕ} (hx : x.Displayable) (hplaces : places ≤ mostPlaces) :
    ∃ text, number places (.finite x) = .ok text ∧ IsNumberText places text ∧
      Denotes text (roundedTo places x.toRat) := by
  obtain ⟨y, hy, hvalue, hexponent, hadjusted⟩ := exists_atPlaces hx hplaces
  obtain ⟨room, z, hroom, hz, hreduced⟩ := exists_reduce hexponent hplaces hadjusted
  obtain ⟨htidied, htext⟩ := tidied_plain hz hexponent
  refine ⟨if z.isZero then ['0'] else z.plain, ?_, htext, ?_⟩
  · rw [← htidied, number, requireFinite, ok_bind, lift, hy]
    simp only [Except.mapError, ok_bind, lift, hroom, hz]
  · rw [← hvalue, ← hreduced]
    split
    · next hzero =>
      have hplain := denotes_plain (.ofNat 0)
      rw [(Decimal.toRat_eq_zero (.ofNat 0)).mpr rfl] at hplain
      rw [(Decimal.isZero_iff z).mp hzero]
      exact hplain
    · exact denotes_plain z

end Display

end PocketCalculator
