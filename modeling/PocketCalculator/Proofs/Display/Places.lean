import Mathlib.Algebra.Order.Round
import PocketCalculator.Display.Amount
import PocketCalculator.Proofs.Decimal.Exact
import PocketCalculator.Proofs.Display.Number

/-!
# Rounding to a number of places

Values are rounded half away from zero before they are shown. The context for this is chosen from
the value, and it always has room for the rounded one (`quantize_of_roomFor`), which is the rational
that the rule gives (`Decimal.toRat_toExponent_away`).
-/

namespace PocketCalculator

-- Powers are the core library's, also where other power instances are imported.
attribute [local instance (1200)] instPowNat

/-- The integer nearest to `q`; a half goes away from zero. -/
def halfAway (q : ℚ) : ℤ := if 0 ≤ q then round q else -round (-q)

/-- `q` rounded half away from zero to so many places after the point. -/
def roundedTo (places : ℕ) (q : ℚ) : ℚ := halfAway (q * 10 ^ (places : ℤ)) / 10 ^ (places : ℤ)

theorem halfAway_neg (q : ℚ) : halfAway (-q) = -halfAway q := by
  unfold halfAway
  rcases lt_trichotomy q 0 with h | h | h
  · rw [if_pos (by linarith), if_neg (by linarith), neg_neg]
  · simp [h]
  · rw [if_neg (by linarith), if_pos (by linarith), neg_neg]

theorem halfAway_natCast (n : ℕ) : halfAway n = n := by
  rw [halfAway, if_pos (by positivity), round_natCast]

theorem roundedTo_neg (places : ℕ) (q : ℚ) : roundedTo places (-q) = -roundedTo places q := by
  rw [roundedTo, roundedTo, neg_mul, halfAway_neg, Int.cast_neg, neg_div]

/-- The nearest integer to a quotient, where a half goes up, is a quotient cut to an integer. -/
theorem nearest_away_eq_div (n : ℕ) {d : ℕ} (hd : 0 < d) :
    nearest .away n d = (2 * n + d) / (2 * d) := by
  have hlt := Nat.mod_lt n hd
  have hsplit : 2 * n + d = 2 * d * (n / d) + (2 * (n % d) + d) := by
    calc 2 * n + d = 2 * (d * (n / d) + n % d) + d := by rw [Nat.div_add_mod]
      _ = 2 * d * (n / d) + (2 * (n % d) + d) := by ring
  rw [hsplit, Nat.mul_add_div (by omega)]
  simp only [nearest]
  split
  · next hless => rw [Nat.div_eq_of_lt (show 2 * (n % d) + d < 2 * d by omega), Nat.add_zero]
  · have hone : (2 * (n % d) + d) / (2 * d) = 1 := by
      rw [Nat.div_eq_iff (by omega)]
      omega
    rw [hone]
    split <;> rfl

theorem nearest_away_eq_halfAway (n : ℕ) {d : ℕ} (hd : 0 < d) :
    (nearest .away n d : ℤ) = halfAway (n / d) := by
  have hdq : (d : ℚ) ≠ 0 := by exact_mod_cast Nat.ne_of_gt hd
  have hquotient : (n : ℚ) / d + 1 / 2 = (2 * n + d : ℕ) / (2 * d : ℕ) := by
    push_cast
    field_simp
  rw [halfAway, if_pos (by positivity), round_eq, hquotient, Rat.floor_natCast_div_natCast,
    nearest_away_eq_div n hd, Int.natCast_ediv]

namespace Decimal

variable {x y : Decimal}

theorem adjusted_le_of_magnitude_le (hx : x.isZero = false) (h : x.magnitude ≤ y.magnitude) :
    x.adjusted ≤ y.adjusted := by
  have hlt := lt_of_ten_zpow_lt (((le_magnitude hx).trans h).trans_lt y.magnitude_lt)
  omega

theorem magnitude_toExponent_of_le (ties : Ties) {e : ℤ} (h : e ≤ x.exponent) :
    (x.toExponent ties e).magnitude = x.magnitude := by
  rw [toExponent, if_pos h]
  exact x.coefficientAt_mul h

/-- Digits before the last place are not changed by rounding. -/
theorem roundedTo_magnitude_of_le {places : ℕ} (h : -(places : ℤ) ≤ x.exponent) :
    roundedTo places x.magnitude = x.magnitude := by
  have hpow : (10 : ℚ) ^ (places : ℤ) ≠ 0 := by positivity
  have hunits : x.magnitude * 10 ^ (places : ℤ) = x.coefficientAt (-(places : ℤ)) := by
    rw [← x.coefficientAt_mul h, mul_assoc, ← zpow_add₀ (by norm_num), neg_add_cancel, zpow_zero,
      mul_one]
  rw [roundedTo, hunits, halfAway_natCast, Int.cast_natCast, ← hunits, mul_div_cancel_right₀ _ hpow]

theorem roundedTo_toRat_of_le {places : ℕ} (h : -(places : ℤ) ≤ x.exponent) :
    roundedTo places x.toRat = x.toRat := by
  unfold toRat
  split
  · rw [roundedTo_neg, roundedTo_magnitude_of_le h]
  · exact roundedTo_magnitude_of_le h

theorem magnitude_toExponent_away (x : Decimal) (places : ℕ) :
    (x.toExponent .away (-(places : ℤ))).magnitude = roundedTo places x.magnitude := by
  rcases Int.lt_or_le x.exponent (-(places : ℤ)) with hlt | hle
  · have hpow : 0 < 10 ^ (-(places : ℤ) - x.exponent).toNat := Nat.pow_pos (by decide)
    have hunits : x.magnitude * 10 ^ (places : ℤ) =
        (x.coefficient : ℚ) / (10 ^ (-(places : ℤ) - x.exponent).toNat : ℕ) := by
      have hsplit := ten_zpow_add_toNat (le_of_lt hlt)
      have hten : (10 : ℚ) ^ (places : ℤ) ≠ 0 := by positivity
      rw [eq_div_iff (by exact_mod_cast hpow.ne'), magnitude, Nat.cast_pow, Nat.cast_ofNat]
      calc x.coefficient * 10 ^ x.exponent * 10 ^ (places : ℤ) *
            (10 : ℚ) ^ (-(places : ℤ) - x.exponent).toNat
          = x.coefficient * (10 ^ (-(places : ℤ)) * 10 ^ (places : ℤ)) := by rw [hsplit]; ring
        _ = x.coefficient := by rw [zpow_neg, inv_mul_cancel₀ hten, mul_one]
    rw [toExponent_of_lt .away hlt, magnitude, roundedTo, hunits, ← nearest_away_eq_halfAway _ hpow,
      zpow_neg, div_eq_mul_inv, Int.cast_natCast]
  · rw [magnitude_toExponent_of_le .away hle, roundedTo_magnitude_of_le hle]

theorem toRat_toExponent_away (x : Decimal) (places : ℕ) :
    (x.toExponent .away (-(places : ℤ))).toRat = roundedTo places x.toRat := by
  rw [toRat, toRat, negative_toExponent, magnitude_toExponent_away]
  split
  · rw [roundedTo_neg]
  · rfl

theorem digits_of_isZero (h : x.isZero = true) : x.digits = 1 := by
  have hcoefficient : x.coefficient = 0 := by simpa [isZero] using h
  rw [digits, hcoefficient, digitCount_zero]

/-- Where digits are rounded away, those before the place are left, and one more if it carries. -/
theorem digits_toExponent_le (ties : Ties) {e : ℤ} (h : x.exponent < e) :
    (x.toExponent ties e).digits ≤ (x.adjusted - e + 1).toNat + 1 := by
  have hadjusted : x.adjusted = x.exponent + x.digits - 1 := rfl
  have hle : nearest ties x.coefficient (10 ^ (e - x.exponent).toNat) ≤
      10 ^ (x.adjusted - e + 1).toNat := by
    refine nearest_le ties (Nat.pow_pos (by decide)) ?_
    rw [← Nat.pow_add]
    exact Nat.le_trans (le_of_lt x.coefficient_lt) (Nat.pow_le_pow_right (by decide) (by omega))
  rw [toExponent_of_lt ties h]
  exact digitCount_le (Nat.succ_pos _)
    (Nat.lt_of_le_of_lt hle (Nat.pow_lt_pow_right (by decide) (Nat.lt_succ_self _)))

/-- A carry brings one digit more. -/
theorem adjusted_toExponent_le (ties : Ties) (x : Decimal) (e : ℤ) :
    (x.toExponent ties e).adjusted ≤ max (x.adjusted + 1) e := by
  have hexponent := toExponent_exponent ties x e
  have hadjusted : (x.toExponent ties e).adjusted =
      (x.toExponent ties e).exponent + (x.toExponent ties e).digits - 1 := rfl
  rcases Int.lt_or_le x.exponent e with hlt | hle
  · have hdigits := digits_toExponent_le ties hlt
    omega
  · cases hzero : (x.toExponent ties e).isZero with
    | true =>
      have hone := digits_of_isZero hzero
      omega
    | false =>
      have hsame := adjusted_le_of_magnitude_le hzero (magnitude_toExponent_of_le ties hle).le
      omega

/-- The digits of the decimal lie in the range of exponents, with a place to spare for a carry. -/
structure Displayable (x : Decimal) : Prop where
  exponent_ge : -1000026 ≤ x.exponent
  adjusted_le : x.adjusted ≤ Context.maxExponent
  adjusted_lt : x.isZero = false → x.adjusted < Context.maxExponent

end Decimal

namespace Display

variable {x y : Decimal} {places : ℕ} {room : Context}

/-- How many places may be asked for. -/
def mostPlaces : ℕ := 900000

/-- The context in which a value is rounded exists, and it has room for all digits that are
shown. -/
theorem exists_roomFor (places : ℕ) (hplaces : places ≤ mostPlaces)
    (hexponent : -1000026 ≤ x.exponent) (hadjusted : x.adjusted ≤ Context.maxExponent) :
    ∃ room, roomFor (.finite x) places = .ok room ∧ room.ties = .away ∧
      x.digits ≤ room.precision ∧ x.adjusted + 1 + places ≤ room.precision := by
  have hmost : mostPlaces = 900000 := rfl
  have hdigits : x.adjusted = x.exponent + x.digits - 1 := rfl
  simp only [Context.maxExponent] at hadjusted
  obtain ⟨p, hp⟩ : ∃ p : ℤ, max (max 1 (x.digits : ℤ)) (x.adjusted + 1 + places) = p := ⟨_, rfl⟩
  have hroom : roomFor (.finite x) places = Context.ofPrecision p .away := by
    rw [← hp]
    rfl
  refine ⟨⟨p.toNat, .away⟩, ?_, rfl, ?_, ?_⟩
  · rw [hroom, Context.ofPrecision, if_neg (by omega),
      if_neg (by simp only [Context.maxPrecision]; omega)]
  · show x.digits ≤ p.toNat
    omega
  · show x.adjusted + 1 + places ≤ (p.toNat : ℤ)
    omega

/-- What is rounded has the digits that there is room for. -/
theorem fits_toExponent (hx : x.Displayable) (hdigits : x.digits ≤ room.precision)
    (hroom : x.adjusted + 1 + places ≤ room.precision) (ties : Ties)
    (hnonzero : (x.toExponent ties (-(places : ℤ))).isZero = false) :
    (x.toExponent ties (-(places : ℤ))).digits ≤ room.precision ∧
      (x.toExponent ties (-(places : ℤ))).adjusted ≤ Context.maxExponent := by
  have hmax : Context.maxExponent = 999999 := rfl
  have hexponent := Decimal.toExponent_exponent ties x (-(places : ℤ))
  have hadjusted : x.adjusted = x.exponent + x.digits - 1 := rfl
  have hrounded : (x.toExponent ties (-(places : ℤ))).adjusted =
      -(places : ℤ) + (x.toExponent ties (-(places : ℤ))).digits - 1 := by
    rw [Decimal.adjusted, hexponent]
  rcases Int.lt_or_le x.exponent (-(places : ℤ)) with hlt | hle
  · have hcut := Decimal.digits_toExponent_le ties hlt
    have hpos := x.digits_pos
    have hbelow : x.adjusted < Context.maxExponent := by
      cases hzero : x.isZero with
      | true =>
        have hone := Decimal.digits_of_isZero hzero
        omega
      | false => exact hx.adjusted_lt hzero
    omega
  · have hsame := Decimal.magnitude_toExponent_of_le ties hle
    have hadjusted_le := Decimal.adjusted_le_of_magnitude_le hnonzero hsame.le
    have hadjusted_max := hx.adjusted_le
    omega

/-- In that context a value can be rounded. -/
theorem quantize_eq_ok (hx : x.Displayable) (hplaces : places ≤ mostPlaces)
    (hties : room.ties = .away) (hdigits : x.digits ≤ room.precision)
    (hroom : x.adjusted + 1 + places ≤ room.precision) :
    room.quantize x (-(places : ℤ)) = .ok (x.toExponent .away (-(places : ℤ))) := by
  have hmax : Context.maxExponent = 999999 := rfl
  have hmost : mostPlaces = 900000 := rfl
  have hadjusted := hx.adjusted_le
  have hpos := x.digits_pos
  have hfinest : ¬ -(places : ℤ) < room.finestExponent := by
    simp only [Context.finestExponent, Context.minExponent]
    omega
  have hlarge : ¬ Context.maxExponent < -(places : ℤ) := by omega
  have hlacks : room.lacksRoom x (-(places : ℤ)) = false := by
    have hfirst : ¬ Context.maxExponent < x.adjusted := by omega
    have hlast : ¬ (room.precision : ℤ) < x.adjusted - -(places : ℤ) + 1 := by omega
    simp only [Context.lacksRoom, hfirst, hlast, decide_false, Bool.or_self, Bool.and_false]
  have hfits := fits_toExponent hx hdigits hroom room.ties
  unfold Context.quantize
  simp only [hfinest, hlarge, hlacks, decide_false, Bool.or_self, Bool.false_eq_true, if_false]
  rw [hties] at hfits ⊢
  split
  · rfl
  · next hnonzero =>
    obtain ⟨hshort, hbelow⟩ := hfits (Bool.eq_false_iff.mpr hnonzero)
    simp only [Nat.not_lt.mpr hshort, Int.not_lt.mpr hbelow, decide_false, Bool.or_self,
      Bool.false_eq_true, if_false]

/-! ### At most so many places -/

theorem round_unit (hplaces : places ≤ mostPlaces) :
    ordinary.round ⟨false, 1, -(places : ℤ)⟩ = .ok ⟨false, 1, -(places : ℤ)⟩ := by
  have hmost : mostPlaces = 900000 := rfl
  have hone : Decimal.digitCount 1 = 1 := by simp [Decimal.digitCount, Decimal.leading]
  refine Context.round_of_contains ⟨?_, ?_, ?_⟩
  · show Decimal.digitCount 1 ≤ 28
    omega
  · show (-1000026 : ℤ) ≤ -(places : ℤ)
    omega
  · show -(places : ℤ) + (Decimal.digitCount 1 : ℤ) - 1 ≤ 999999
    omega

theorem powerOfTen_places (hplaces : places ≤ mostPlaces) :
    ordinary.powerOfTen (-(places : ℤ)) = .ok ⟨false, 1, -(places : ℤ)⟩ := by
  have hmost : mostPlaces = 900000 := rfl
  have hnear : ¬ 2 * (Context.maxExponent + (ordinary.precision : ℤ)) <
      ((-(places : ℤ)).natAbs : ℤ) := by
    show ¬ (2 * (999999 + 28) : ℤ) < _
    omega
  rw [Context.powerOfTen, if_neg hnear]
  exact round_unit hplaces

theorem unitExponent_eq (hplaces : places ≤ mostPlaces) :
    unitExponent places = .ok (-(places : ℤ)) := by
  have hmax : Context.maxExponent = 999999 := rfl
  unfold unitExponent
  split
  · rw [round_unit hplaces]
    rfl
  · next hzero =>
    have hplaces : places = 0 := by omega
    subst hplaces
    rw [if_neg (by omega)]
    exact (congrArg (fun r => r >>= fun x => .ok x.exponent) (round_unit (Nat.zero_le _))).trans rfl

/-- At most so many places are left, and what they hold is the rounded value. -/
theorem exists_atPlaces (hx : x.Displayable) (hplaces : places ≤ mostPlaces) :
    ∃ y, atPlaces x places = .ok y ∧ y.toRat = roundedTo places x.toRat ∧
      -(places : ℤ) ≤ y.exponent ∧ y.adjusted ≤ Context.maxExponent := by
  obtain ⟨room, hroom, hties, hdigits, hprecision⟩ :=
    exists_roomFor places hplaces hx.exponent_ge hx.adjusted_le
  unfold atPlaces
  split
  · have hexponent := Decimal.toExponent_exponent .away x (-(places : ℤ))
    rw [powerOfTen_places hplaces, ok_bind, hroom, ok_bind,
      quantize_eq_ok hx hplaces hties hdigits hprecision]
    refine ⟨_, rfl, x.toRat_toExponent_away places, hexponent.ge, ?_⟩
    cases hzero : (x.toExponent .away (-(places : ℤ))).isZero with
    | false => exact (fits_toExponent hx hdigits hprecision .away hzero).2
    | true =>
      simp only [Decimal.adjusted, hexponent, Decimal.digits_of_isZero hzero, Context.maxExponent]
      omega
  · next hle =>
    rw [Int.not_lt] at hle
    exact ⟨x, rfl, (Decimal.roundedTo_toRat_of_le hle).symm, hle, hx.adjusted_le⟩

/-- A value that has been rounded to places is written without its last zeros. -/
theorem exists_reduce (hexponent : -(places : ℤ) ≤ y.exponent) (hplaces : places ≤ mostPlaces)
    (hadjusted : y.adjusted ≤ Context.maxExponent) :
    ∃ room z, roomFor (.finite y) 0 = .ok room ∧ room.reduce y = .ok z ∧ z.toRat = y.toRat := by
  have hmost : mostPlaces = 900000 := rfl
  obtain ⟨room, hroom, _, hdigits, _⟩ :=
    exists_roomFor 0 (Nat.zero_le _) (show -1000026 ≤ y.exponent by omega) hadjusted
  have hcontains : room.Contains y := by
    refine ⟨hdigits, ?_, hadjusted⟩
    have hpos := y.digits_pos
    simp only [Context.finestExponent, Context.minExponent]
    omega
  have hreduce : room.reduce y = .ok (if y.isZero then { y with exponent := 0 }
      else Context.stripZeros Context.maxExponent y) := by
    rw [Context.reduce, Context.round_of_contains hcontains, ok_bind]
  refine ⟨room, _, hroom, hreduce, ?_⟩
  split
  · next hzero =>
    have hcoefficient := (Decimal.toRat_eq_zero y).mp ((Decimal.isZero_iff y).mp hzero)
    rw [(Decimal.toRat_eq_zero y).mpr hcoefficient, Decimal.toRat_eq_zero]
    exact hcoefficient
  · exact Decimal.toRat_stripZeros _ y

end Display

end PocketCalculator
