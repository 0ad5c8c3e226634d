import Mathlib.Data.List.Basic
import PocketCalculator.Display.Shown
import PocketCalculator.Proofs.Decimal.Rounded
import PocketCalculator.Proofs.Outcome

/-!
# The text of a shown number

A number is shown as a whole part without needless zeros in front and, where there is one, a
fraction without zeros at its end. Zero has no sign (`isNumberText_of_number`).
-/

namespace PocketCalculator

-- Powers are the core library's, also where other power instances are imported.
attribute [local instance (1200)] instPowNat

/-! ### Digits -/

namespace Decimal

variable {n : Nat} {c : Char}

theorem digitText_eq (n : Nat) :
    digitText n = if n < 10 then [n.digitChar] else digitText (n / 10) ++ [(n % 10).digitChar] :=
  Nat.toDigits_eq_if (by decide)

theorem isDigit_of_mem_digitText (h : c ∈ digitText n) : c.isDigit = true :=
  Nat.isDigit_of_mem_toDigits (by decide) (by decide) h

theorem digitText_ne_nil (n : Nat) : digitText n ≠ [] := Nat.toDigits_ne_nil

theorem digitChar_ne_zero {d : Nat} (hpos : 0 < d) (hlt : d < 10) : d.digitChar ≠ '0' := by
  revert hpos
  revert d
  decide

/-- A positive number is written without zeros in front. -/
theorem head?_digitText (hn : 0 < n) : (digitText n).head? ≠ some '0' := by
  induction n using Nat.strongRecOn with
  | ind n ih =>
    rw [digitText_eq]
    split
    · next hlt =>
      simpa using digitChar_ne_zero hn hlt
    · next hge =>
      rw [List.head?_append_of_ne_nil _ (digitText_ne_nil _)]
      exact ih (n / 10) (by omega) (by omega)

/-- The last digit of what is no multiple of ten is not zero. -/
theorem getLast?_digitText (hn : n % 10 ≠ 0) : (digitText n).getLast? ≠ some '0' := by
  have hlast := digitChar_ne_zero (Nat.pos_of_ne_zero hn) (Nat.mod_lt n (by decide))
  rw [digitText_eq]
  split
  · next hlt =>
    rw [Nat.mod_eq_of_lt hlt] at hlast
    simpa using hlast
  · simpa using hlast

theorem eq_of_mem_signText {negative : Bool} (h : c ∈ signText negative) : c = '-' := by
  cases negative with
  | false => cases h
  | true => exact List.mem_singleton.mp h

end Decimal

/-! ### Exponents -/

namespace Context

variable {c : Context} {x y : Decimal}

theorem exponent_le_of_round (hx : x.isZero = false) (h : c.round x = .ok y) :
    x.exponent ≤ y.exponent := by
  have htarget := c.exponent_le_targetExponent x
  have hexponent := Decimal.toExponent_exponent c.ties x (c.targetExponent x)
  unfold round at h
  rw [if_neg (by simp [hx])] at h
  simp only at h
  split at h
  · cases h
  · cases h
    unfold Decimal.uncarry
    split
    · simp only
      omega
    · omega

theorem exponent_le_of_powerOfTen {e : Int} (h : c.powerOfTen e = .ok y) : e ≤ y.exponent := by
  unfold powerOfTen at h
  split at h
  · cases h
  · exact exponent_le_of_round rfl h

theorem exponent_of_quantize {e : Int} (h : c.quantize x e = .ok y) : y.exponent = e := by
  have hexponent := Decimal.toExponent_exponent c.ties x e
  unfold quantize at h
  split at h
  · cases h
  · simp only at h
    split at h
    · cases h
      exact hexponent
    · split at h
      · cases h
      · cases h
        exact hexponent

theorem isZero_stripZeros (limit : Int) (x : Decimal) :
    (stripZeros limit x).isZero = x.isZero := by
  fun_induction stripZeros limit x with
  | case1 x h ih =>
    have hquotient : x.coefficient / 10 ≠ 0 := by omega
    have hcoefficient : x.coefficient ≠ 0 := by omega
    rw [ih]
    simp [Decimal.isZero, hquotient, hcoefficient]
  | case2 x h => rfl

theorem exponent_le_stripZeros (limit : Int) (x : Decimal) :
    x.exponent ≤ (stripZeros limit x).exponent := by
  fun_induction stripZeros limit x with
  | case1 x h ih =>
    simp only at ih
    omega
  | case2 x h => exact Int.le_refl _

/-- A zero is left at the end only where the exponent has come to its limit. -/
theorem coefficient_stripZeros (limit : Int) {x : Decimal} (hx : x.isZero = false)
    (h : (stripZeros limit x).exponent < limit) : (stripZeros limit x).coefficient % 10 ≠ 0 := by
  fun_induction stripZeros limit x with
  | case1 x hzero ih =>
    have hquotient : x.coefficient / 10 ≠ 0 := by omega
    exact ih (by simp [Decimal.isZero, hquotient]) h
  | case2 x hzero =>
    intro hlast
    exact hzero ⟨Decimal.coefficient_pos hx, hlast, h⟩

theorem reduce_cases (h : c.reduce x = .ok y) :
    (y.coefficient = 0 ∧ y.exponent = 0) ∨
      (y.isZero = false ∧ x.exponent ≤ y.exponent ∧
        (y.exponent < maxExponent → y.coefficient % 10 ≠ 0)) := by
  obtain ⟨w, hw, h⟩ := bind_eq_ok.mp h
  cases h
  split
  · next hzero =>
    left
    exact ⟨by simpa [Decimal.isZero] using hzero, rfl⟩
  · next hnonzero =>
    rw [Bool.not_eq_true] at hnonzero
    have hx : x.isZero = false := by
      rw [← Bool.not_eq_true]
      intro hzero
      rw [isZero_of_round hzero hw] at hnonzero
      cases hnonzero
    right
    refine ⟨?_, ?_, ?_⟩
    · rw [isZero_stripZeros, hnonzero]
    · exact Int.le_trans (exponent_le_of_round hx hw) (exponent_le_stripZeros _ w)
    · exact coefficient_stripZeros _ hnonzero

end Context

namespace Display

/-! ### Texts of numbers -/

/-- The parts of the text of a number with at most `places` digits after the point. -/
structure NumberText (places : Nat) where
  negative : Bool
  whole : List Char
  fraction : List Char
  whole_digits : ∀ c ∈ whole, c.isDigit = true
  whole_ne_nil : whole ≠ []
  whole_head : whole.head? = some '0' → whole = ['0']
  fraction_digits : ∀ c ∈ fraction, c.isDigit = true
  fraction_last : fraction.getLast? ≠ some '0'
  fraction_length : fraction.length ≤ places
  nonzero : negative = true → whole = ['0'] → fraction ≠ []

/-- The fraction with the point before it; a number without fraction has no point. -/
def pointed (fraction : List Char) : List Char :=
  if fraction = [] then [] else '.' :: fraction

def NumberText.text {places : Nat} (t : NumberText places) : List Char :=
  Decimal.signText t.negative ++ t.whole ++ pointed t.fraction

/-- The text is that of a number with at most `places` digits after the point. -/
def IsNumberText (places : Nat) (cs : List Char) : Prop := ∃ t : NumberText places, t.text = cs

variable {places : Nat}

theorem isDigit_of_mem_zeros {c : Char} {n : Nat} (h : c ∈ List.replicate n '0') :
    c.isDigit = true := by
  rw [List.eq_of_mem_replicate h]
  decide

theorem isNumberText_zero (places : Nat) : IsNumberText places ['0'] :=
  ⟨{ negative := false
     whole := ['0']
     fraction := []
     whole_digits := fun _ => isDigit_of_mem_zeros (n := 1)
     whole_ne_nil := by decide
     whole_head := fun _ => rfl
     fraction_digits := fun _ hc => by cases hc
     fraction_last := by decide
     fraction_length := Nat.zero_le _
     nonzero := fun h => by cases h }, rfl⟩

theorem NumberText.ne_of_isDigit {c d : Char} (hc : c.isDigit = true) (hd : d.isDigit = false) :
    c ≠ d := by
  rintro rfl
  rw [hc] at hd
  cases hd

theorem NumberText.point_not_mem_whole (t : NumberText places) :
    '.' ∉ Decimal.signText t.negative ++ t.whole := by
  intro h
  rcases List.mem_append.mp h with h | h
  · exact absurd (Decimal.eq_of_mem_signText h) (by decide)
  · exact absurd (t.whole_digits _ h) (by decide)

theorem mem_pointed {c : Char} {fraction : List Char} (h : c ∈ pointed fraction) :
    c = '.' ∨ c ∈ fraction := by
  unfold pointed at h
  split at h
  · cases h
  · exact List.mem_cons.mp h

theorem NumberText.cases_of_mem (t : NumberText places) {c : Char} (h : c ∈ t.text) :
    c = '-' ∨ c.isDigit = true ∨ c = '.' := by
  rcases List.mem_append.mp h with h | h
  · rcases List.mem_append.mp h with h | h
    · exact .inl (Decimal.eq_of_mem_signText h)
    · exact .inr (.inl (t.whole_digits c h))
  · rcases mem_pointed h with h | h
    · exact .inr (.inr h)
    · exact .inr (.inl (t.fraction_digits c h))

theorem NumberText.count_point_le (t : NumberText places) : t.text.count '.' ≤ 1 := by
  have hfraction : '.' ∉ t.fraction := fun h => absurd (t.fraction_digits _ h) (by decide)
  have hpointed : (pointed t.fraction).count '.' ≤ 1 := by
    unfold pointed
    split
    · decide
    · simp [List.count_eq_zero_of_not_mem hfraction]
  rw [text, List.count_append, List.count_eq_zero_of_not_mem t.point_not_mem_whole]
  omega

theorem NumberText.text_ne_negativeZero (t : NumberText places) : t.text ≠ ['-', '0'] := by
  obtain ⟨c, rest, hwhole⟩ := List.exists_cons_of_ne_nil t.whole_ne_nil
  intro h
  rw [text, hwhole] at h
  cases hnegative : t.negative with
  | false =>
    rw [hnegative] at h
    have hhead : c = '-' := (List.cons_eq_cons.mp h).1
    have hdigit := t.whole_digits c (by simp [hwhole])
    exact NumberText.ne_of_isDigit hdigit (by decide) hhead
  | true =>
    rw [hnegative] at h
    -- What follows the sign is `0`, so there is no fraction.
    have htail : c :: (rest ++ pointed t.fraction) = ['0'] := (List.cons_eq_cons.mp h).2
    obtain ⟨hc, hrest⟩ := List.cons_eq_cons.mp htail
    obtain ⟨hrest, hfraction⟩ := List.append_eq_nil_iff.mp hrest
    refine t.nonzero hnegative (by rw [hwhole, hc, hrest]) ?_
    by_contra hne
    simp [pointed, hne] at hfraction

theorem NumberText.text_ne_nil (t : NumberText places) : t.text ≠ [] := by
  intro h
  exact t.whole_ne_nil (List.append_eq_nil_iff.mp (List.append_eq_nil_iff.mp h).1).2

/-! ### Tidying -/

theorem reverse_dropWhile_reverse {p : Char → Bool} {cs : List Char} {c : Char}
    (hlast : cs.getLast? = some c) (hc : p c = false) :
    (cs.reverse.dropWhile p).reverse = cs := by
  have hhead : cs.reverse.head? = some c := by rw [List.head?_reverse, hlast]
  obtain ⟨rest, hreverse⟩ := List.head?_eq_some_iff.mp hhead
  rw [hreverse, List.dropWhile_cons_of_neg (by simp [hc]), ← hreverse, List.reverse_reverse]

/-- In a number's text there is nothing to tidy up. -/
theorem NumberText.tidy_text (t : NumberText places) : tidy t.text = t.text := by
  unfold tidy
  split
  · next hpoint =>
    -- The text ends with the last digit of the fraction, and that is not zero.
    have hne : t.fraction ≠ [] := by
      intro hfraction
      rw [List.contains_iff_mem, text, hfraction] at hpoint
      exact t.point_not_mem_whole (by simpa [pointed] using hpoint)
    have hlast : t.text.getLast? = some (t.fraction.getLast hne) := by
      rw [text, pointed, if_neg hne, List.getLast?_append_of_ne_nil _ (List.cons_ne_nil _ _),
        List.getLast?_eq_some_getLast (List.cons_ne_nil _ _), List.getLast_cons hne]
    have hdigit := t.fraction_digits _ (List.getLast_mem hne)
    have hzero : t.fraction.getLast hne ≠ '0' := by
      intro h
      exact t.fraction_last (by rw [List.getLast?_eq_some_getLast hne, h])
    have hzeros : dropZeros t.text = t.text :=
      reverse_dropWhile_reverse hlast (by simpa using hzero)
    have hpoints : dropPoint t.text = t.text :=
      reverse_dropWhile_reverse hlast (by simpa using ne_of_isDigit hdigit (by decide))
    rw [hzeros, hpoints]
  · rfl

/-! ### Plain digits -/

section Plain

variable {z : Decimal}

theorem isNumberText_plain_whole (hz : z.isZero = false) (hexponent : 0 ≤ z.exponent) :
    IsNumberText places z.plain := by
  have hne := Decimal.digitText_ne_nil z.coefficient
  have hhead := Decimal.head?_digitText (Decimal.coefficient_pos hz)
  have hfirst : (Decimal.digitText z.coefficient ++ List.replicate z.exponent.toNat '0').head? ≠
      some '0' := by
    rwa [List.head?_append_of_ne_nil _ hne]
  refine ⟨{ negative := z.negative
            whole := Decimal.digitText z.coefficient ++ List.replicate z.exponent.toNat '0'
            fraction := []
            whole_digits := fun c hc => (List.mem_append.mp hc).elim
              Decimal.isDigit_of_mem_digitText isDigit_of_mem_zeros
            whole_ne_nil := by simp [hne]
            whole_head := fun h => absurd h hfirst
            fraction_digits := fun _ hc => by cases hc
            fraction_last := by decide
            fraction_length := Nat.zero_le _
            nonzero := fun _ h => absurd (by rw [h]; rfl) hfirst }, ?_⟩
  simp [NumberText.text, pointed, Decimal.plain, hz, hexponent]

theorem isNumberText_plain_point (hz : z.isZero = false) (hlast : z.coefficient % 10 ≠ 0)
    (hexponent : z.exponent < 0) (hplaces : -(places : Int) ≤ z.exponent) :
    IsNumberText places z.plain := by
  have hhead := Decimal.head?_digitText (Decimal.coefficient_pos hz)
  have hend := Decimal.getLast?_digitText hlast
  have hdigits : ∀ c ∈ Decimal.digitText z.coefficient, c.isDigit = true :=
    fun _ => Decimal.isDigit_of_mem_digitText
  have hne := Decimal.digitText_ne_nil z.coefficient
  have hplain : z.plain = Decimal.signText z.negative ++
      Decimal.withPoint (Decimal.digitText z.coefficient) (-z.exponent).toNat := by
    simp [Decimal.plain, hz, Int.not_le.mpr hexponent]
  have hpos : 0 < (-z.exponent).toNat := by omega
  have hle : (-z.exponent).toNat ≤ places := by omega
  rw [hplain]
  generalize Decimal.digitText z.coefficient = digits at hhead hend hdigits hne
  generalize (-z.exponent).toNat = p at hpos hle
  by_cases hlong : p < digits.length
  · have htake : (digits.take (digits.length - p)).head? ≠ some '0' := by
      rwa [List.head?_take, if_neg (by omega)]
    have hdrop : (digits.drop (digits.length - p)).getLast? ≠ some '0' := by
      rwa [List.getLast?_drop, if_neg (by omega)]
    have hfraction : digits.drop (digits.length - p) ≠ [] := by
      simp only [ne_eq, List.drop_eq_nil_iff]
      omega
    refine ⟨{ negative := z.negative
              whole := digits.take (digits.length - p)
              fraction := digits.drop (digits.length - p)
              whole_digits := fun c hc => hdigits c (List.mem_of_mem_take hc)
              whole_ne_nil := by
                simp only [ne_eq, List.take_eq_nil_iff, hne, or_false]
                omega
              whole_head := fun h => absurd h htake
              fraction_digits := fun c hc => hdigits c (List.mem_of_mem_drop hc)
              fraction_last := hdrop
              fraction_length := by
                rw [List.length_drop]
                omega
              nonzero := fun _ _ => hfraction }, ?_⟩
    simp [NumberText.text, pointed, hfraction, Decimal.withPoint, Nat.ne_of_gt hpos, hlong]
  · have hfraction : List.replicate (p - digits.length) '0' ++ digits ≠ [] := by simp [hne]
    refine ⟨{ negative := z.negative
              whole := ['0']
              fraction := List.replicate (p - digits.length) '0' ++ digits
              whole_digits := fun _ => isDigit_of_mem_zeros (n := 1)
              whole_ne_nil := by decide
              whole_head := fun _ => rfl
              fraction_digits := fun c hc =>
                (List.mem_append.mp hc).elim isDigit_of_mem_zeros (hdigits c)
              fraction_last := by rwa [List.getLast?_append_of_ne_nil _ hne]
              fraction_length := by
                rw [List.length_append, List.length_replicate]
                omega
              nonzero := fun _ _ => hfraction }, ?_⟩
    simp [NumberText.text, pointed, hfraction, Decimal.withPoint, Nat.ne_of_gt hpos, hlong]

end Plain

/-! ### Numbers -/

theorem exponent_atPlaces {x y : Decimal} {places : Int} (h : atPlaces x places = .ok y) :
    -places ≤ y.exponent := by
  unfold atPlaces at h
  split at h
  · obtain ⟨quantum, hquantum, h⟩ := bind_eq_ok.mp h
    obtain ⟨room, _, h⟩ := bind_eq_ok.mp h
    rw [Context.exponent_of_quantize h]
    exact Context.exponent_le_of_powerOfTen hquantum
  · next hfits =>
    cases h
    exact Int.not_lt.mp hfits

theorem exists_of_number {places : Int} {value : Extended} {text : List Char}
    (h : number places value = .ok text) :
    ∃ (x y z : Decimal) (room : Context), value = .finite x ∧ atPlaces x places = .ok y ∧
      room.reduce y = .ok z ∧
      text = if tidy z.plain = [] ∨ tidy z.plain = ['-', '0'] then ['0'] else tidy z.plain := by
  obtain ⟨x, hx, h⟩ := bind_eq_ok.mp h
  obtain ⟨y, hy, h⟩ := bind_eq_ok.mp h
  obtain ⟨room, _, h⟩ := bind_eq_ok.mp h
  obtain ⟨z, hz, h⟩ := bind_eq_ok.mp h
  refine ⟨x, y, z, room, ?_, mapError_eq_ok.mp hy, mapError_eq_ok.mp hz, (Except.ok.inj h).symm⟩
  cases value with
  | finite w =>
    cases hx
    rfl
  | infinite negative => cases hx
  | nan negative signaling payload => cases hx

/-- There is nothing to tidy up, but for a zero, which may come with a sign. -/
theorem tidied_plain {y z : Decimal} {room : Context} {places : Int} (hz : room.reduce y = .ok z)
    (hplaces : -places ≤ y.exponent) :
    (if tidy z.plain = [] ∨ tidy z.plain = ['-', '0'] then ['0'] else tidy z.plain) =
        (if z.isZero then ['0'] else z.plain) ∧
      IsNumberText places.toNat (if z.isZero then ['0'] else z.plain) := by
  rcases Context.reduce_cases hz with ⟨hcoefficient, hexponent⟩ | ⟨hnonzero, hexponent, hlast⟩
  · have hzero : z.isZero = true := by simp [Decimal.isZero, hcoefficient]
    have hplain : z.plain = Decimal.signText z.negative ++ ['0'] := by
      simp [Decimal.plain, hzero, hexponent]
    rw [hplain, if_pos hzero]
    cases z.negative with
    | false => exact ⟨rfl, isNumberText_zero _⟩
    | true => exact ⟨rfl, isNumberText_zero _⟩
  · have htext : IsNumberText places.toNat z.plain := by
      rcases Int.lt_or_le z.exponent 0 with hnegative | hwhole
      · have hbelow : z.exponent < Context.maxExponent := Int.lt_trans hnegative (by decide)
        exact isNumberText_plain_point hnonzero (hlast hbelow) hnegative (by omega)
      · exact isNumberText_plain_whole hnonzero hwhole
    have hshown : (if z.isZero then ['0'] else z.plain) = z.plain := if_neg (by simp [hnonzero])
    obtain ⟨t, ht⟩ := htext
    rw [hshown, ← ht, t.tidy_text, if_neg (by simp [t.text_ne_nil, t.text_ne_negativeZero])]
    exact ⟨rfl, t, rfl⟩

/-- Whatever is shown is the text of a number. -/
theorem isNumberText_of_number {places : Int} {value : Extended} {text : List Char}
    (h : number places value = .ok text) : IsNumberText places.toNat text := by
  obtain ⟨x, y, z, room, _, hy, hz, rfl⟩ := exists_of_number h
  obtain ⟨htidied, htext⟩ := tidied_plain hz (exponent_atPlaces hy)
  rw [htidied]
  exact htext

theorem isNumberText_of_shown {x : Decimal} {text : List Char} (h : shown x = .ok text) :
    IsNumberText standardPlaces.toNat text :=
  isNumberText_of_number (mapError_eq_ok.mp h)

end Display

end PocketCalculator
