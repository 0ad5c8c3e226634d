import Mathlib.Algebra.Order.Field.Power
import Mathlib.Algebra.Order.Monoid.WithTop
import Mathlib.Data.Rat.Defs
import Mathlib.Tactic.Positivity
import PocketCalculator.Proofs.Expression.Scan
import PocketCalculator.Proofs.Outcome
import PocketCalculator.Settings

/-!
# Settings that are accepted

Whatever the environment holds, the settings are read or a problem is reported that one of the
variables really has. What is read can be used, with one exception: the delay is tested for being
below zero, and so every spelling of not-a-number passes (`ofEnvironment_cases`).
-/

namespace PocketCalculator

/-! ### Numbers of double precision -/

namespace Binary64

/-- The number that is stood for, perhaps an infinity; not-a-number stands for none. -/
def value? : Binary64 → Option (WithBot (WithTop ℚ))
  | .finite negative mantissa exponent =>
    some (((if negative then -(mantissa : ℚ) else mantissa) * 2 ^ exponent : ℚ) : WithTop ℚ)
  | .infinite negative => some (if negative then ⊥ else (⊤ : WithTop ℚ))
  | .nan => none

def AtLeastZero (x : Binary64) : Prop := ∃ q, x.value? = some q ∧ 0 ≤ q

section Sign

variable {x : Binary64}

theorem value?_eq_none_iff : x.value? = none ↔ x = .nan := by
  cases x with
  | finite negative mantissa exponent => simp [value?]
  | infinite negative => simp [value?]
  | nan => simp [value?]

/-- The test for being below zero is right about every number. -/
theorem isNegative_iff {q : WithBot (WithTop ℚ)} (h : x.value? = some q) :
    x.isNegative = true ↔ q < 0 := by
  cases x with
  | nan => cases h
  | infinite negative =>
    cases h
    cases negative with
    | true => exact iff_of_true rfl (WithBot.bot_lt_coe 0)
    | false =>
      exact iff_of_false Bool.false_ne_true
        (not_lt.mpr (WithBot.coe_le_coe.mpr (le_top (a := (0 : WithTop ℚ)))))
  | finite negative mantissa exponent =>
    cases h
    have hpow : (0 : ℚ) < 2 ^ exponent := by positivity
    refine Iff.trans ?_ (WithBot.coe_lt_coe.trans WithTop.coe_lt_coe).symm
    cases negative with
    | true =>
      show decide (0 < mantissa) = true ↔ -(mantissa : ℚ) * 2 ^ exponent < 0
      rw [decide_eq_true_iff, neg_mul, neg_lt_zero, mul_pos_iff_of_pos_right hpow, Nat.cast_pos]
    | false =>
      exact iff_of_false Bool.false_ne_true
        (not_lt.mpr (by positivity : (0 : ℚ) ≤ mantissa * 2 ^ exponent))

/-- What is not below zero is zero or above, or no number at all. -/
theorem isNegative_eq_false_iff : x.isNegative = false ↔ x = .nan ∨ x.AtLeastZero := by
  cases hx : x.value? with
  | none =>
    rw [value?_eq_none_iff.mp hx]
    exact iff_of_true rfl (Or.inl rfl)
  | some q =>
    have hnumber : x ≠ .nan := fun h => by
      rw [value?_eq_none_iff.mpr h] at hx
      cases hx
    rw [← Bool.not_eq_true, isNegative_iff hx, not_lt, or_iff_right hnumber, AtLeastZero, hx]
    simp

theorem exists_value_of_isNegative (h : x.isNegative = true) :
    ∃ q, x.value? = some q ∧ q < 0 := by
  cases hx : x.value? with
  | none =>
    rw [value?_eq_none_iff.mp hx] at h
    cases h
  | some q => exact ⟨q, rfl, (isNegative_iff hx).mp h⟩

theorem not_atLeastZero_nan : ¬ nan.AtLeastZero := by
  rintro ⟨q, hq, _⟩
  cases hq

end Sign

/-! ### Spellings of not-a-number -/

/-- The text is `nan` in any case, perhaps with a sign. -/
def NamesNan (text : List Char) : Prop := (splitSign text).2.map Char.toLower = "nan".toList

instance (text : List Char) : Decidable (NamesNan text) := inferInstanceAs (Decidable (_ = _))

section Reading

variable {text cs ds : List Char} {negative : Bool}

theorem ofRatio_ne_nan (negative : Bool) (n d : ℕ) : ofRatio negative n d ≠ .nan := by
  have hrounded : ∀ rounded : ℕ × ℤ, (if maxExponent < rounded.2 then infinite negative
      else finite negative rounded.1 rounded.2) ≠ .nan := by
    intro rounded
    split
    · exact fun h => by cases h
    · exact fun h => by cases h
  exact hrounded _

theorem ofDecimal_ne_nan (x : Decimal) : ofDecimal x ≠ .nan := by
  unfold ofDecimal
  split
  · exact fun h => by cases h
  · split
    · exact fun h => by cases h
    · exact ofRatio_ne_nan _ _ _

/-- Underscores are taken out between digits only. -/
theorem joinDigits?_cases {after : Bool} (h : joinDigits? after cs = some ds) :
    (∃ c ∈ ds, isDecimalDigit c = true) ∨ ds = cs := by
  fun_induction joinDigits? after cs generalizing ds with
  | case1 => exact .inr (Option.some.inj h).symm
  | case2 after c cs hdigit ih =>
    obtain ⟨rest, hrest, rfl⟩ := Option.map_eq_some_iff.mp h
    exact .inl ⟨c, List.mem_cons_self, (Bool.and_eq_true_iff.mp hdigit).2⟩
  | case3 after c cs hdigit => cases h
  | case4 after cs hcs => cases h
  | case5 after c cs hnext hc ih =>
    obtain ⟨rest, hrest, rfl⟩ := Option.map_eq_some_iff.mp h
    rcases ih hrest with ⟨d, hd, hdigit⟩ | rfl
    · exact .inl ⟨d, List.mem_cons_of_mem c hd, hdigit⟩
    · exact .inr rfl

theorem joinDigits?_of_not_mem {after : Bool} (h : '_' ∉ cs) : joinDigits? after cs = some cs := by
  fun_induction joinDigits? after cs with
  | case1 => rfl
  | case2 after c cs hdigit ih => exact absurd List.mem_cons_self h
  | case3 after c cs hdigit => exact absurd List.mem_cons_self h
  | case4 after cs hcs => exact absurd List.mem_cons_self h
  | case5 after c cs hnext hc ih =>
    rw [ih fun hmem => h (List.mem_cons_of_mem c hmem)]
    rfl

theorem ofName?_eq_nan_iff {name : List Char} :
    ofName? name negative = some .nan ↔ name = "nan".toList := by
  unfold ofName?
  split
  · next hinfinite =>
    refine iff_of_false (fun h => by cases h) ?_
    rintro rfl
    exact absurd hinfinite (by decide)
  · split
    · next hname => exact iff_of_true rfl hname
    · next hname => exact iff_of_false (fun h => by cases h) hname

/-- The texts that are read as not-a-number are its spellings. -/
theorem ofText?_eq_nan_iff : ofText? text = some .nan ↔ NamesNan (trim text) := by
  unfold ofText? NamesNan
  generalize splitSign (trim text) = signed
  obtain ⟨negative, body⟩ := signed
  constructor
  · intro h
    obtain ⟨joined, hjoined, h⟩ := Option.bind_eq_some_iff.mp h
    split at h
    · next x hname =>
      cases h
      have hnan := ofName?_eq_nan_iff.mp hname
      rcases joinDigits?_cases hjoined with ⟨c, hc, hdigit⟩ | rfl
      · have hletter := List.mem_map_of_mem (f := Char.toLower) hc
        rw [hnan, toLower_of_isNumberChar (isNumberChar_of_isDecimalDigit hdigit)] at hletter
        have hnone : "nan".toList.all (!isDecimalDigit ·) = true := by decide
        simpa [hdigit] using List.all_eq_true.mp hnone c hletter
      · exact hnan
    · obtain ⟨x, _, hx⟩ := Option.bind_eq_some_iff.mp h
      exact absurd (Option.some.inj hx) (ofDecimal_ne_nan _)
  · intro h
    have hmem : '_' ∉ body := fun hmem => by
      have hletter := List.mem_map_of_mem (f := Char.toLower) hmem
      have hsame : body.map Char.toLower = "nan".toList := h
      rw [hsame] at hletter
      exact absurd hletter (by decide)
    refine Option.bind_eq_some_iff.mpr ⟨body, joinDigits?_of_not_mem hmem, ?_⟩
    rw [ofName?_eq_nan_iff.mpr h]

end Reading

end Binary64

/-! ### The environment -/

def Variable.IsDelay (v : Variable) : Prop := v = .errorDelay

def Variable.IsCount (v : Variable) : Prop := v = .lengthLimit ∨ v = .sessions

namespace Settings

open Binary64

/-- The problem is one that the environment has. -/
def Problem.Explains (env : Environment) : Problem → Prop
  | .noToken => env.value .token = []
  | .notANumber v value =>
    v.IsDelay ∧ value = env.value v ∧ value ≠ [] ∧ Binary64.ofText? value = none
  | .notAnInteger v value =>
    v.IsCount ∧ value = env.value v ∧ value ≠ [] ∧ integer? value = none
  | .negative v =>
    v.IsDelay ∧ ∃ x, Binary64.ofText? (env.value v) = some x ∧ ∃ q, x.value? = some q ∧ q < 0
  | .notPositive v => v.IsCount ∧ ∃ n ≤ 0, integer? (env.value v) = some n

variable {env : Environment} {v : Variable}

theorem value_ne_nil (h : ¬ (env.value v).isEmpty = true) : env.value v ≠ [] :=
  mt List.isEmpty_iff.mpr h

theorem trim_value (env : Environment) (v : Variable) : trim (env.value v) = env.value v :=
  trim_trim _

theorem standardDelay_atLeastZero : standardDelay.AtLeastZero :=
  (isNegative_eq_false_iff.mp (by decide +kernel)).resolve_left (ofDecimal_ne_nan _)

/-- What is made of a delay: a number from zero on, or not-a-number for a spelling of it. -/
def DelayOf (value : List Char) (x : Binary64) : Prop :=
  if NamesNan value then x = .nan else x.AtLeastZero

theorem delayOf_of_ofText? {x : Binary64} (hx : Binary64.ofText? (env.value v) = some x)
    (hnegative : x.isNegative = false) : DelayOf (env.value v) x := by
  have hnan : NamesNan (env.value v) ↔ x = .nan := by
    rw [← trim_value, ← ofText?_eq_nan_iff, hx, Option.some_inj]
  unfold DelayOf
  split
  · next hnames => exact hnan.mp hnames
  · next hnames => exact (isNegative_eq_false_iff.mp hnegative).resolve_left (mt hnan.mpr hnames)

theorem ensures_readDelay (hv : v.IsDelay) {standard : Binary64}
    (hstandard : standard.AtLeastZero) :
    Ensures (readDelay env v standard) (DelayOf (env.value v)) (Problem.Explains env) := by
  simp only [readDelay]
  split
  · next hempty =>
    have hblank : ¬ NamesNan (env.value v) := by
      rw [List.isEmpty_iff.mp hempty]
      decide
    exact (if_neg hblank).mpr hstandard
  · next hvalue =>
    split
    · next hnone => exact ⟨hv, rfl, value_ne_nil hvalue, hnone⟩
    · next x hx =>
      split
      · next hnegative => exact ⟨hv, x, hx, exists_value_of_isNegative hnegative⟩
      · next hnegative => exact delayOf_of_ofText? hx (Bool.eq_false_iff.mpr hnegative)

theorem ensures_readCount (hv : v.IsCount) {standard : ℕ} (hstandard : 1 ≤ standard) :
    Ensures (readCount env v standard) (1 ≤ ·) (Problem.Explains env) := by
  simp only [readCount]
  split
  · exact hstandard
  · next hvalue =>
    split
    · next hnone => exact ⟨hv, rfl, value_ne_nil hvalue, hnone⟩
    · next n hn =>
      split
      · next hle => exact ⟨hv, n, hle, hn⟩
      · next hpos => exact (by omega : 1 ≤ n.toNat)

/-- What can be said of settings that are read. -/
structure ReadFrom (env : Environment) (s : Settings) : Prop where
  token : s.token = env.value .token
  token_ne_nil : s.token ≠ []
  limit : 1 ≤ s.limit
  sessions : 1 ≤ s.sessions
  delay : DelayOf (env.value .errorDelay) s.errorDelay

theorem ensures_ofEnvironment (env : Environment) :
    Ensures (ofEnvironment env) (ReadFrom env) (Problem.Explains env) := by
  simp only [ofEnvironment]
  split
  · next hempty => exact List.isEmpty_iff.mp hempty
  · next hvalue =>
    refine (ensures_readDelay rfl standardDelay_atLeastZero).bind fun delay hdelay => ?_
    refine (ensures_readCount (Or.inl rfl) (by decide)).bind fun limit hlimit => ?_
    refine (ensures_readCount (Or.inr rfl) (by decide)).bind fun sessions hsessions => ?_
    exact ⟨rfl, value_ne_nil hvalue, hlimit, hsessions, hdelay⟩

/-- Either a problem is reported that the environment has, or settings are read. These have a token
without blanks around it, and a limit and a number of sessions from one on. Their delay is a number
from zero on unless the variable spells not-a-number; then it is none. -/
theorem ofEnvironment_cases (env : Environment) :
    (∃ problem, ofEnvironment env = .error problem ∧ problem.Explains env) ∨
      ∃ s, ofEnvironment env = .ok s ∧ s.token ≠ [] ∧ trim s.token = s.token ∧
        1 ≤ s.limit ∧ 1 ≤ s.sessions ∧
        if NamesNan (env.value .errorDelay) then s.errorDelay = .nan
        else s.errorDelay.AtLeastZero := by
  have hensures := ensures_ofEnvironment env
  cases henv : ofEnvironment env with
  | error problem => exact .inl ⟨problem, rfl, hensures.of_error henv⟩
  | ok s =>
    have hs := hensures.of_ok henv
    refine .inr ⟨s, rfl, hs.token_ne_nil, ?_, hs.limit, hs.sessions, hs.delay⟩
    rw [hs.token, trim_value]

/-- Not-a-number is accepted as a delay. -/
theorem nan_accepted :
    let env : Environment := fun v =>
      match v with
      | .token => some "42:TEST".toList
      | .errorDelay => some "nan".toList
      | _ => none
    ∃ s, ofEnvironment env = .ok s ∧ s.errorDelay = .nan ∧ ¬ s.errorDelay.AtLeastZero := by
  intro env
  have hsettings : ofEnvironment env = .ok ⟨"42:TEST".toList, .nan, 1024, 1000, "INFO".toList⟩ := by
    decide +kernel
  exact ⟨_, hsettings, rfl, not_atLeastZero_nan⟩

end Settings

end PocketCalculator
