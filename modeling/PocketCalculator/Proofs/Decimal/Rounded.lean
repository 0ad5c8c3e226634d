import PocketCalculator.Decimal.Sum

/-!
# Rounded decimals

What a context can hold: so many digits, and exponents within its range. Rounding yields such a
decimal (`contains_of_round`) and leaves it as it is (`round_of_contains`).
-/

namespace PocketCalculator

-- Powers are the core library's, also where other power instances are imported.
attribute [local instance (1200)] instPowNat

theorem nearest_le (ties : Ties) {n d q : Nat} (hd : 0 < d) (h : n ≤ q * d) :
    nearest ties n d ≤ q := by
  obtain ⟨h1, _⟩ := two_mul_nearest_le ties n d hd
  refine Nat.le_of_not_lt fun hlt => ?_
  have h2 : (q + 1) * d ≤ nearest ties n d * d := Nat.mul_le_mul_right d hlt
  rw [Nat.add_mul, Nat.one_mul] at h2
  omega

theorem Decimal.digitCount_zero : digitCount 0 = 1 := by
  simp [digitCount, leading]

theorem Decimal.digitCount_le {n k : Nat} (hk : 0 < k) (h : n < 10 ^ k) : digitCount n ≤ k := by
  rcases Nat.eq_zero_or_pos n with rfl | hn
  · rw [digitCount_zero]
    exact hk
  · have hle := Nat.lt_of_le_of_lt (ten_pow_le_of_pos hn) h
    have hlt := (Nat.pow_lt_pow_iff_right (by decide)).mp hle
    have hpos := digitCount_pos n
    omega

theorem Decimal.negative_toExponent (ties : Ties) (x : Decimal) (e : Int) :
    (x.toExponent ties e).negative = x.negative := by
  unfold toExponent
  split
  · rfl
  · split <;> rfl

namespace Context

/-- The decimal is one that the context can hold. -/
structure Contains (c : Context) (x : Decimal) : Prop where
  digits_le : x.digits ≤ c.precision
  finest_le : c.finestExponent ≤ x.exponent
  adjusted_le : x.adjusted ≤ maxExponent

variable {c : Context} {x y : Decimal}

theorem finestExponent_le_maxExponent (hp : 0 < c.precision) :
    c.finestExponent ≤ maxExponent := by
  simp only [finestExponent, minExponent, maxExponent]
  omega

theorem exponent_le_targetExponent (c : Context) (x : Decimal) :
    x.exponent ≤ c.targetExponent x := by
  simp only [targetExponent]
  omega

theorem finestExponent_le_targetExponent (c : Context) (x : Decimal) :
    c.finestExponent ≤ c.targetExponent x := by
  simp only [targetExponent]
  omega

theorem targetExponent_of_contains (h : c.Contains x) : c.targetExponent x = x.exponent := by
  have hdigits := h.digits_le
  have hfinest := h.finest_le
  simp only [targetExponent, Decimal.adjusted]
  omega

theorem coefficient_toExponent_le (c : Context) (x : Decimal) :
    (x.toExponent c.ties (c.targetExponent x)).coefficient ≤ 10 ^ c.precision := by
  have hlt := x.coefficient_lt
  have htarget : x.adjusted - c.precision + 1 ≤ c.targetExponent x := by
    simp only [targetExponent]
    omega
  simp only [Decimal.adjusted] at htarget
  rcases Int.lt_or_eq_of_le (c.exponent_le_targetExponent x) with hexponent | hexponent
  · rw [Decimal.toExponent_of_lt c.ties hexponent]
    refine nearest_le c.ties (Nat.pow_pos (by decide)) ?_
    rw [← Nat.pow_add]
    exact Nat.le_trans (Nat.le_of_lt hlt) (Nat.pow_le_pow_right (by decide) (by omega))
  · rw [← hexponent, Decimal.toExponent_self]
    exact Nat.le_trans (Nat.le_of_lt hlt) (Nat.pow_le_pow_right (by decide) (by omega))

/-- A decimal that has been rounded to zero has the exponent of the smallest step. -/
theorem targetExponent_of_toExponent_isZero (hx : x.isZero = false) (hp : 0 < c.precision)
    (h : (x.toExponent c.ties (c.targetExponent x)).coefficient = 0) :
    c.targetExponent x = c.finestExponent := by
  have hpos := Decimal.coefficient_pos hx
  rcases Int.lt_or_eq_of_le (c.exponent_le_targetExponent x) with hexponent | hexponent
  · rw [Decimal.toExponent_of_lt c.ties hexponent] at h
    obtain ⟨_, hhalf⟩ := two_mul_nearest_le c.ties x.coefficient
      (10 ^ (c.targetExponent x - x.exponent).toNat) (Nat.pow_pos (by decide))
    have hzero : nearest c.ties x.coefficient (10 ^ (c.targetExponent x - x.exponent).toNat) = 0 :=
      h
    rw [hzero, Nat.zero_mul] at hhalf
    have hlow := Decimal.ten_pow_le_of_pos hpos
    have hlt : 10 ^ (x.digits - 1) < 10 ^ (c.targetExponent x - x.exponent).toNat := by
      simp only [Decimal.digits]
      omega
    have hdigits := (Nat.pow_lt_pow_iff_right (by decide)).mp hlt
    simp only [targetExponent, Decimal.adjusted] at hexponent hdigits ⊢
    omega
  · rw [← hexponent, Decimal.toExponent_self] at h
    omega

theorem contains_of_uncarry (hx : x.isZero = false) (hp : 0 < c.precision)
    (hy : (x.toExponent c.ties (c.targetExponent x)).uncarry c.precision = y)
    (hadjusted : y.isZero = false → y.adjusted ≤ maxExponent) : c.Contains y := by
  have hle := c.coefficient_toExponent_le x
  have hzero := targetExponent_of_toExponent_isZero hx hp
  have hexponent := Decimal.toExponent_exponent c.ties x (c.targetExponent x)
  have hfinest := c.finestExponent_le_targetExponent x
  generalize x.toExponent c.ties (c.targetExponent x) = z at hy hle hzero hexponent
  have hmax := finestExponent_le_maxExponent hp
  unfold Decimal.uncarry at hy
  split at hy
  · next hlong =>
    subst hy
    have hge : ¬ z.coefficient < 10 ^ c.precision := by
      intro hlt
      have := Decimal.digitCount_le hp hlt
      simp only [Decimal.digits] at hlong
      omega
    have heq : z.coefficient = 10 ^ (c.precision - 1) * 10 := by
      rw [← Nat.pow_succ, Nat.succ_eq_add_one, Nat.sub_add_cancel hp]
      omega
    have hten : z.coefficient / 10 = 10 ^ (c.precision - 1) := by
      rw [heq, Nat.mul_div_cancel _ (by decide)]
    have hlt : z.coefficient / 10 < 10 ^ c.precision := by
      rw [hten]
      exact Nat.pow_lt_pow_right (by decide) (by omega)
    have hnonzero :
        (Decimal.mk z.negative (z.coefficient / 10) (z.exponent + 1)).isZero = false := by
      have hpos : 0 < 10 ^ (c.precision - 1) := Nat.pow_pos (by decide)
      simp only [Decimal.isZero, hten, beq_eq_false_iff_ne]
      omega
    refine ⟨Decimal.digitCount_le hp hlt, ?_, hadjusted hnonzero⟩
    simp only
    omega
  · next hshort =>
    subst hy
    refine ⟨Nat.le_of_not_lt hshort, by omega, ?_⟩
    rcases Nat.eq_zero_or_pos z.coefficient with hz | hz
    · have hone : z.digits = 1 := by rw [Decimal.digits, hz, Decimal.digitCount_zero]
      have htarget := hzero hz
      simp only [Decimal.adjusted, hone]
      omega
    · refine hadjusted ?_
      simp only [Decimal.isZero, beq_eq_false_iff_ne]
      omega

/-- A rounded decimal is one that the context can hold. -/
theorem contains_of_round (hp : 0 < c.precision) (h : c.round x = .ok y) : c.Contains y := by
  unfold round at h
  cases hx : x.isZero with
  | true =>
    simp only [hx, if_true, Except.ok.injEq] at h
    subst h
    have hone : Decimal.digitCount x.coefficient = 1 := by
      have hzero : x.coefficient = 0 := by simpa [Decimal.isZero] using hx
      rw [hzero, Decimal.digitCount_zero]
    have hmax := finestExponent_le_maxExponent hp
    refine ⟨?_, ?_, ?_⟩
    · simp only [Decimal.digits, hone]
      omega
    · simp only
      omega
    · simp only [Decimal.adjusted, Decimal.digits, hone]
      omega
  | false =>
    simp only [hx, Bool.false_eq_true, if_false] at h
    split at h
    · cases h
    · next hadjusted =>
      cases h
      refine contains_of_uncarry hx hp rfl fun hnonzero => ?_
      simpa [hnonzero] using hadjusted

/-- What the context can hold is not changed by rounding. -/
theorem round_of_contains (h : c.Contains x) : c.round x = .ok x := by
  have hadjusted := h.adjusted_le
  have hdigits := h.digits_le
  have hfinest := h.finest_le
  unfold round
  cases hx : x.isZero with
  | true =>
    have hpos := x.digits_pos
    have hexponent : max c.finestExponent (min x.exponent maxExponent) = x.exponent := by
      simp only [Decimal.adjusted] at hadjusted
      omega
    simp only [if_true, hexponent]
  | false =>
    have hround : (x.toExponent c.ties (c.targetExponent x)).uncarry c.precision = x := by
      rw [targetExponent_of_contains h, Decimal.toExponent_self]
      exact if_neg (Nat.not_lt.mpr hdigits)
    simp only [Bool.false_eq_true, if_false, hround, hx, Bool.not_false, Bool.true_and]
    exact if_neg (by simpa using hadjusted)

theorem plus_of_contains (h : c.Contains x) :
    c.plus x = .ok (if x.isZero then x.abs else x) := by
  unfold plus
  split
  · exact round_of_contains ⟨h.digits_le, h.finest_le, h.adjusted_le⟩
  · exact round_of_contains h

theorem negative_of_round (h : c.round x = .ok y) : y.negative = x.negative := by
  have huncarry : ∀ z : Decimal, (z.uncarry c.precision).negative = z.negative := by
    intro z
    unfold Decimal.uncarry
    split <;> rfl
  unfold round at h
  split at h
  · cases h
    rfl
  · simp only at h
    split at h
    · cases h
    · cases h
      rw [huncarry, Decimal.negative_toExponent]

theorem negative_of_quantize {e : Int} (h : c.quantize x e = .ok y) : y.negative = x.negative := by
  simp only [quantize] at h
  split at h
  · cases h
  · split at h
    · cases h
      exact Decimal.negative_toExponent c.ties x e
    · split at h
      · cases h
      · cases h
        exact Decimal.negative_toExponent c.ties x e

theorem isZero_of_round (hx : x.isZero = true) (h : c.round x = .ok y) : y.isZero = true := by
  unfold round at h
  rw [if_pos hx] at h
  cases h
  exact hx

/-! ### Signals -/

theorem overflow_of_round {s : Signal} (h : c.round x = .error s) : s = .overflow := by
  unfold round at h
  split at h
  · cases h
  · simp only at h
    split at h
    · cases h
      rfl
    · cases h

theorem overflow_of_divide {s : Signal} (hy : y.isZero = false) (h : c.divide x y = .error s) :
    s = .overflow := by
  unfold divide at h
  rw [if_neg (by simp [hy])] at h
  split at h
  · exact overflow_of_round h
  · exact overflow_of_round h

end Context

end PocketCalculator
