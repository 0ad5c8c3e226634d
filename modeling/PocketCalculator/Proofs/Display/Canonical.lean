import PocketCalculator.Proofs.Display.Value
import PocketCalculator.Proofs.Expression.Precision

/-!
# One text for each number

Digits without needless zeros are those of their value (`digitText_digitsValue`), and the value also
says where the point is, so a number has only one text (`NumberText.text_eq_of_value_eq`). Hence two
decimals are shown alike exactly if they are rounded to the same number (`shown_alike_iff`).
-/

namespace PocketCalculator

-- Powers are the core library's, also where other power instances are imported.
attribute [local instance (1200)] instPowNat

/-! ### Digits and their value -/

section Digits

variable {cs ds : List Char}

theorem exists_digitChar {c : Char} (h : c.isDigit = true) : ∃ d < 10, d.digitChar = c := by
  obtain ⟨hlow, hhigh⟩ : 48 ≤ c.toNat ∧ c.toNat ≤ 57 := by
    simpa [Char.isDigit, UInt32.le_iff_toNat_le] using h
  have hchars : ∀ n ≤ 57, 48 ≤ n → (n - 48).digitChar = Char.ofNat n := by decide
  refine ⟨c.toNat - 48, by omega, ?_⟩
  rw [hchars _ hhigh hlow, Char.ofNat_toNat]

theorem digitsValue_concat (cs : List Char) {d : ℕ} (hd : d < 10) :
    digitsValue (cs ++ [d.digitChar]) = digitsValue cs * 10 + d := by
  have hsingle : digitsValue [d.digitChar] = d := by
    simp [digitsValue, digitValue?_digitChar hd]
  rw [digitsValue_append, hsingle, List.length_singleton, Nat.pow_one]

/-- Digits that do not begin with a needless zero are the digits of their value. -/
theorem digitText_digitsValue (hdigits : ∀ c ∈ cs, c.isDigit = true) (hne : cs ≠ [])
    (hhead : cs.head? = some '0' → cs = ['0']) : Decimal.digitText (digitsValue cs) = cs := by
  induction cs using List.reverseRecOn with
  | nil => exact absurd rfl hne
  | append_singleton front c ih =>
    obtain ⟨d, hd, rfl⟩ := exists_digitChar (hdigits c (by simp))
    rw [digitsValue_concat front hd]
    rcases eq_or_ne front [] with rfl | hfront
    · rw [Decimal.digitText_eq, if_pos (show digitsValue [] * 10 + d < 10 by simpa [digitsValue])]
      simp [digitsValue]
    · have hfirst : front.head? ≠ some '0' := by
        intro hzero
        have hall := hhead (by rw [List.head?_append_of_ne_nil _ hfront, hzero])
        have hlength := congrArg List.length hall
        rw [List.length_append, List.length_singleton, List.length_singleton] at hlength
        exact hfront (List.length_eq_zero_iff.mp (by omega))
      have htext := ih (fun c hc => hdigits c (List.mem_append_left _ hc)) hfront
        fun hzero => absurd hzero hfirst
      have hpos : digitsValue front ≠ 0 := by
        intro hzero
        rw [hzero] at htext
        exact hfirst (by rw [← htext]; rfl)
      rw [Decimal.digitText_eq, if_neg (by omega), show (digitsValue front * 10 + d) / 10 =
        digitsValue front by omega, show (digitsValue front * 10 + d) % 10 = d by omega, htext]

/-- So many digits are known from their value. -/
theorem eq_of_digitsValue_eq (hcs : ∀ c ∈ cs, c.isDigit = true) (hds : ∀ c ∈ ds, c.isDigit = true)
    (hlength : cs.length = ds.length) (h : digitsValue cs = digitsValue ds) : cs = ds := by
  -- A one in front keeps the zeros that the digits may begin with.
  have hone : ∀ {cs : List Char}, (∀ c ∈ cs, c.isDigit = true) →
      Decimal.digitText (10 ^ cs.length + digitsValue cs) = '1' :: cs := by
    intro cs hcs
    have hvalue : digitsValue ('1' :: cs) = 10 ^ cs.length + digitsValue cs := by
      have happend := digitsValue_append ['1'] cs
      rw [show digitsValue ['1'] = 1 from rfl, Nat.one_mul] at happend
      exact happend
    have hdigits : ∀ c ∈ '1' :: cs, c.isDigit = true := by
      intro c hc
      rcases List.mem_cons.mp hc with rfl | hc
      · decide
      · exact hcs c hc
    rw [← hvalue]
    exact digitText_digitsValue hdigits (List.cons_ne_nil _ _)
      fun hzero => absurd hzero (by simp)
  have htexts := hone hcs
  rw [hlength, h, hone hds] at htexts
  exact (List.cons_eq_cons.mp htexts).2.symm

end Digits

theorem denotes_unique {text : List Char} {q r : ℚ} (hq : Denotes text q) (hr : Denotes text r) :
    q = r := by
  obtain ⟨d, hd, rfl⟩ := hq
  obtain ⟨d', hd', rfl⟩ := hr
  rw [hd] at hd'
  rw [Except.ok.inj hd']

namespace Display

/-! ### Texts and their value -/

namespace NumberText

variable {places : ℕ} (t u : NumberText places)

/-- The decimal that the text writes down. -/
def decimal : Decimal := written t.negative t.whole t.fraction

def value : ℚ := t.decimal.toRat

theorem denotes : Denotes t.text t.value := by
  rw [text, List.append_assoc]
  exact denotes_written t.negative t.whole_digits t.whole_ne_nil t.fraction_digits

theorem digitText_whole : Decimal.digitText (digitsValue t.whole) = t.whole :=
  digitText_digitsValue t.whole_digits t.whole_ne_nil t.whole_head

/-- A fraction ends with a digit that counts. -/
theorem coefficient_mod (h : t.fraction ≠ []) : t.decimal.coefficient % 10 ≠ 0 := by
  obtain ⟨front, c, hfraction⟩ : ∃ front c, t.fraction = front ++ [c] :=
    ⟨_, _, (List.dropLast_append_getLast h).symm⟩
  obtain ⟨d, hd, rfl⟩ := exists_digitChar (t.fraction_digits c (by simp [hfraction]))
  have hlast := t.fraction_last
  rw [hfraction, List.getLast?_concat] at hlast
  have hne : d ≠ 0 := by
    rintro rfl
    exact hlast rfl
  have hcoefficient : t.decimal.coefficient = digitsValue (t.whole ++ front) * 10 + d := by
    rw [decimal, written, hfraction, ← List.append_assoc, digitsValue_concat _ hd]
  omega

theorem fraction_of_isZero (h : t.decimal.isZero = true) : t.fraction = [] := by
  by_contra hne
  have hzero : t.decimal.coefficient = 0 := by simpa [Decimal.isZero] using h
  exact t.coefficient_mod hne (by rw [hzero])

theorem whole_of_isZero (h : t.decimal.isZero = true) : t.whole = ['0'] := by
  have hzero : digitsValue (t.whole ++ t.fraction) = 0 := beq_iff_eq.mp h
  rw [t.fraction_of_isZero h, List.append_nil] at hzero
  rw [← t.digitText_whole, hzero]
  rfl

/-- Zero has no sign, so a minus is that of a negative number. -/
theorem negative_iff : t.negative = true ↔ t.value < 0 := by
  have hsign : t.decimal.negative = t.negative := rfl
  rw [value, Decimal.toRat_neg_iff, hsign]
  constructor
  · intro hnegative
    refine ⟨hnegative, ?_⟩
    rw [← Bool.not_eq_true]
    intro hzero
    exact t.nonzero hnegative (t.whole_of_isZero hzero) (t.fraction_of_isZero hzero)
  · exact And.left

variable {t u}

theorem magnitude_eq_of_value_eq (h : t.value = u.value) :
    t.decimal.magnitude = u.decimal.magnitude := by
  rw [← Decimal.abs_toRat, ← Decimal.abs_toRat]
  exact congrArg abs h

/-- A longer fraction would end with a zero. -/
theorem fraction_length_le_of_value_eq (h : t.value = u.value) :
    u.fraction.length ≤ t.fraction.length := by
  by_contra hlt
  rw [not_le] at hlt
  have hexponent : u.decimal.exponent ≤ -(t.fraction.length : ℤ) := by
    show -(u.fraction.length : ℤ) ≤ _
    omega
  have hcoefficient := Decimal.coefficient_eq_of_magnitude_eq hexponent
    (magnitude_eq_of_value_eq h).symm
  refine u.coefficient_mod (List.ne_nil_of_length_pos (by omega)) ?_
  obtain ⟨k, hk⟩ : ∃ k, (-(t.fraction.length : ℤ) - u.decimal.exponent).toNat = k + 1 := by
    refine ⟨u.fraction.length - t.fraction.length - 1, ?_⟩
    show (-(t.fraction.length : ℤ) - -(u.fraction.length : ℤ)).toNat = _
    omega
  rw [hcoefficient, hk, Nat.pow_succ, ← Nat.mul_assoc, Nat.mul_mod_left]

/-- A number has only one text. -/
theorem text_eq_of_value_eq (h : t.value = u.value) : t.text = u.text := by
  have hlength : t.fraction.length = u.fraction.length :=
    le_antisymm (fraction_length_le_of_value_eq h.symm) (fraction_length_le_of_value_eq h)
  have hcoefficient : t.decimal.coefficient = u.decimal.coefficient := by
    have hexponent : t.decimal.exponent = u.decimal.exponent := by
      show -(t.fraction.length : ℤ) = -(u.fraction.length : ℤ)
      rw [hlength]
    have hsame := Decimal.coefficient_eq_of_magnitude_eq hexponent.le (magnitude_eq_of_value_eq h)
    rwa [hexponent, Int.sub_self, Int.toNat_zero, Nat.pow_zero, Nat.mul_one] at hsame
  obtain ⟨hwhole, hfraction⟩ : digitsValue t.whole = digitsValue u.whole ∧
      digitsValue t.fraction = digitsValue u.fraction := by
    have hpos : 0 < 10 ^ u.fraction.length := Nat.pow_pos (by decide)
    have hlt := digitsValue_lt t.fraction
    have hsum : digitsValue t.fraction + 10 ^ t.fraction.length * digitsValue t.whole =
        digitsValue u.fraction + 10 ^ u.fraction.length * digitsValue u.whole := by
      rw [Nat.add_comm, Nat.mul_comm, ← digitsValue_append, Nat.add_comm (digitsValue u.fraction),
        Nat.mul_comm (10 ^ u.fraction.length), ← digitsValue_append]
      exact hcoefficient
    rw [hlength] at hlt hsum
    obtain ⟨hquotient, hremainder⟩ := (Nat.div_mod_unique hpos).mpr ⟨hsum, hlt⟩
    obtain ⟨hquotient', hremainder'⟩ :=
      (Nat.div_mod_unique hpos).mpr ⟨rfl, digitsValue_lt u.fraction⟩
    exact ⟨hquotient.symm.trans hquotient', hremainder.symm.trans hremainder'⟩
  have hnegative : t.negative = u.negative := by
    rw [Bool.eq_iff_iff, t.negative_iff, u.negative_iff, h]
  rw [text, text, hnegative, ← t.digitText_whole, hwhole, u.digitText_whole,
    eq_of_digitsValue_eq t.fraction_digits u.fraction_digits hlength hfraction]

end NumberText

/-! ### Shown numbers -/

section Shown

variable {places : ℕ} {text text' : List Char} {q : ℚ}

/-- What denotes the same number is the same text. -/
theorem text_eq_of_denotes (htext : IsNumberText places text) (htext' : IsNumberText places text')
    (hq : Denotes text q) (hq' : Denotes text' q) : text = text' := by
  obtain ⟨t, rfl⟩ := htext
  obtain ⟨u, rfl⟩ := htext'
  exact NumberText.text_eq_of_value_eq
    ((denotes_unique t.denotes hq).trans (denotes_unique hq' u.denotes))

end Shown

end Display

namespace Decimal.Moderate

theorem displayable {x : Decimal} (hx : x.Moderate) : x.Displayable := by
  obtain ⟨⟨hexponent, _⟩, _, hadjusted⟩ := hx
  have hmax : Context.maxExponent = 999999 := rfl
  exact ⟨by omega, by omega, fun _ => by omega⟩

end Decimal.Moderate

namespace Display

variable {x : Decimal} {places : ℕ}

/-- A number is shown, with the value rounded half away from zero to so many places; and numbers are
shown alike exactly if they are rounded to the same one. -/
theorem shown_alike_iff (hx : x.Moderate) (hplaces : places ≤ mostPlaces) :
    ∃ text, number places (.finite x) = .ok text ∧ IsNumberText places text ∧
      Denotes text (roundedTo places x.toRat) ∧
      ∀ y : Decimal, y.Moderate → (number places (.finite y) = .ok text ↔
        roundedTo places y.toRat = roundedTo places x.toRat) := by
  obtain ⟨text, hshown, htext, hdenotes⟩ := exists_number hx.displayable hplaces
  refine ⟨text, hshown, htext, hdenotes, fun y hy => ?_⟩
  obtain ⟨text', hshown', htext', hdenotes'⟩ := exists_number hy.displayable hplaces
  rw [hshown', Except.ok.injEq]
  constructor
  · rintro rfl
    exact denotes_unique hdenotes' hdenotes
  · intro hrounded
    rw [hrounded] at hdenotes'
    exact text_eq_of_denotes htext' htext hdenotes' hdenotes

/-- A carry over all digits, and a digit that is rounded away. -/
theorem shown_alike_iff_of_carry :
    number 8 (.finite ⟨false, 9999999999, -9⟩) = .ok "10".toList ∧
      number 8 (.finite ⟨false, 10000000001, -9⟩) = .ok "10".toList ∧
      roundedTo 8 (Decimal.toRat ⟨false, 10000000001, -9⟩) =
        roundedTo 8 (Decimal.toRat ⟨false, 9999999999, -9⟩) := by
  have hnine : number 8 (.finite ⟨false, 9999999999, -9⟩) = .ok "10".toList := by decide +kernel
  have hten : number 8 (.finite ⟨false, 10000000001, -9⟩) = .ok "10".toList := by decide +kernel
  have hmoderate : Decimal.Moderate ⟨false, 9999999999, -9⟩ :=
    ⟨by decide, by decide +kernel⟩
  have hmoderate' : Decimal.Moderate ⟨false, 10000000001, -9⟩ :=
    ⟨by decide, by decide +kernel⟩
  obtain ⟨text, hshown, _, _, halike⟩ := @shown_alike_iff _ 8 hmoderate (by decide)
  cases hshown.symm.trans hnine
  exact ⟨hnine, hten, (halike _ hmoderate').mp hten⟩

end Display

end PocketCalculator
