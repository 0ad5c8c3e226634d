/-!
# The nearest integer to a quotient

`nearest ties n d` is the integer nearest to `n / d`; of two equally near ones, `ties` chooses.
-/

namespace PocketCalculator

/-- Where a half goes: to the even neighbour, or away from zero. -/
inductive Ties where
  | toEven
  | away
  deriving DecidableEq

/-- The integer nearest to `n / d`. -/
def nearest (ties : Ties) (n d : Nat) : Nat :=
  let q := n / d
  let twice := 2 * (n % d)
  if twice < d then q
  else if d < twice then q + 1
  else
    match ties with
    | .toEven => q + q % 2
    | .away => q + 1

theorem nearest_of_dvd (ties : Ties) (n d : Nat) (hd : 0 < d) (h : n % d = 0) :
    nearest ties n d = n / d := by
  have hlt : 2 * (n % d) < d := by omega
  simp only [nearest, hlt, if_true]

/-- Less than half a unit is nearest to zero. -/
theorem nearest_eq_zero (ties : Ties) {n d : Nat} (h : 2 * n < d) : nearest ties n d = 0 := by
  have hlt : n < d := by omega
  simp only [nearest, Nat.mod_eq_of_lt hlt, h, if_true, Nat.div_eq_of_lt hlt]

/-- The nearest integer is one of the two neighbours. -/
theorem nearest_mem (ties : Ties) (n d : Nat) :
    nearest ties n d = n / d ∨ nearest ties n d = n / d + 1 := by
  simp only [nearest]
  split
  · exact Or.inl rfl
  · split
    · exact Or.inr rfl
    · cases ties with
      | away => exact Or.inr rfl
      | toEven =>
        have h := Nat.mod_lt (n / d) (show 0 < 2 by decide)
        show n / d + n / d % 2 = n / d ∨ n / d + n / d % 2 = n / d + 1
        omega

/-- The distance is at most half a unit. -/
theorem two_mul_nearest_le (ties : Ties) (n d : Nat) (hd : 0 < d) :
    2 * (nearest ties n d * d) ≤ 2 * n + d ∧ 2 * n ≤ 2 * (nearest ties n d * d) + d := by
  have hdm := Nat.div_add_mod n d
  have hlt := Nat.mod_lt n hd
  have hcomm : n / d * d = d * (n / d) := Nat.mul_comm _ _
  have hsucc : (n / d + 1) * d = d * (n / d) + d := by rw [Nat.add_mul, hcomm, Nat.one_mul]
  simp only [nearest]
  split
  · rw [hcomm]
    omega
  · split
    · rw [hsucc]
      omega
    · cases ties with
      | away =>
        show 2 * ((n / d + 1) * d) ≤ 2 * n + d ∧ 2 * n ≤ 2 * ((n / d + 1) * d) + d
        rw [hsucc]
        omega
      | toEven =>
        show 2 * ((n / d + n / d % 2) * d) ≤ 2 * n + d ∧ 2 * n ≤ 2 * ((n / d + n / d % 2) * d) + d
        have h := Nat.mod_lt (n / d) (show 0 < 2 by decide)
        rcases (by omega : n / d % 2 = 0 ∨ n / d % 2 = 1) with h0 | h1
        · rw [h0, Nat.add_zero, hcomm]
          omega
        · rw [h1, hsucc]
          omega

/-- Only the nearest integer is less than half a unit away. -/
theorem nearest_eq_of_lt (ties : Ties) {n d r : Nat} (h1 : 2 * n < 2 * (r * d) + d)
    (h2 : 2 * (r * d) < 2 * n + d) : nearest ties n d = r := by
  have hd : 0 < d := by omega
  obtain ⟨h3, h4⟩ := two_mul_nearest_le ties n d hd
  rcases Nat.lt_trichotomy (nearest ties n d) r with hlt | heq | hgt
  · have hle : (nearest ties n d + 1) * d ≤ r * d := Nat.mul_le_mul_right d hlt
    rw [Nat.add_mul, Nat.one_mul] at hle
    omega
  · exact heq
  · have hle : (r + 1) * d ≤ nearest ties n d * d := Nat.mul_le_mul_right d hgt
    rw [Nat.add_mul, Nat.one_mul] at hle
    omega

end PocketCalculator
