import PocketCalculator.Keypad.State

/-!
# What a key can do

A key that changes what is shown counts a revision. A key that does not leaves the state alone,
except that it may make a result a line that is being typed.
-/

namespace PocketCalculator.Keypad

/-! ### Operations -/

/-- What keys do. -/
inductive Operation : (Keypad → Keypad × Bool) → Prop where
  | append (key : Key) {c : Char} (symbol : key.symbol? = some c) : Operation (·.append c)
  | togglePercent : Operation togglePercent
  | equals : Operation equals
  | clear : Operation clear
  | delete : Operation delete
  | applyUnary (op : Unary) : Operation (·.applyUnary op)
  | unchanged : Operation unchanged

theorem operation_pressKey (key : Key) : Operation (·.pressKey key) := by
  cases hsymbol : key.symbol? with
  | some c =>
    have happend : (fun s : Keypad => s.pressKey key) = (·.append c) := by
      funext s
      simp only [pressKey, hsymbol]
    rw [happend]
    exact .append key hsymbol
  | none =>
    cases key with
    | percent => exact .togglePercent
    | equals => exact .equals
    | clear => exact .clear
    | delete => exact .delete
    | unary op => exact .applyUnary op
    | _ => cases hsymbol

theorem operation_press (code : List Char) : Operation (·.press code) := by
  unfold press
  cases Key.ofCode? code with
  | none => exact .unchanged
  | some key => exact operation_pressKey key

/-! ### Steps -/

inductive Step (s : Keypad) : Keypad × Bool → Prop where
  | changed (t : Keypad) (revision : s.revision < t.revision) (limits : t.limits = s.limits) :
    Step s (t, true)
  | unchanged : Step s (s, false)
  | continued (phase : s.phase = .result) : Step s ({ s with phase := .typing }, false)

variable {s t : Keypad}

theorem step_changed (t : Keypad) (hrevision : s.revision ≤ t.revision)
    (hlimit : t.limits = s.limits) : Step s t.changed :=
  .changed _ (Nat.lt_succ_of_le hrevision) hlimit

/-- On an empty line every character is shown. -/
theorem step_append_of_nil {c : Char} (hlimit : 0 < s.limits.length)
    (hline : (s.startTyping c).line = [])
    (ht : (s.startTyping c).revision = s.revision ∧ (s.startTyping c).limits = s.limits) :
    Step s (s.append c) := by
  simp only [append]
  generalize s.startTyping c = t at hline ht
  have hblank : t.isBlankLine = true := by
    unfold isBlankLine
    rw [hline]
    rfl
  split
  · exact step_changed _ (Nat.le_of_eq ht.1.symm) ht.2
  · split
    · next hpoint =>
      rw [hline] at hpoint
      exact absurd (Bool.and_eq_true_iff.mp hpoint).2 (by decide)
    · split
      · next hfull =>
        rw [hline, ht.2] at hfull
        exact absurd hlimit (Nat.not_lt.mpr hfull)
      · exact step_changed _ (Nat.le_of_eq ht.1.symm) ht.2

/-- Characters that are not shown leave the line as it is. -/
theorem step_append_of_line {c : Char} (hkept : Step s (s.startTyping c, false))
    (ht : (s.startTyping c).revision = s.revision ∧ (s.startTyping c).limits = s.limits) :
    Step s (s.append c) := by
  simp only [append]
  generalize s.startTyping c = t at hkept ht
  split
  · exact step_changed _ (Nat.le_of_eq ht.1.symm) ht.2
  · split
    · exact hkept
    · split
      · exact hkept
      · exact step_changed _ (Nat.le_of_eq ht.1.symm) ht.2

theorem step_append (hlimit : 0 < s.limits.length) (c : Char) : Step s (s.append c) := by
  cases hphase : s.phase with
  | typing =>
    have hstart : s.startTyping c = s := by simp only [startTyping, hphase]
    exact step_append_of_line (by rw [hstart]; exact .unchanged) (by rw [hstart]; exact ⟨rfl, rfl⟩)
  | failure =>
    have hstart : s.startTyping c = { s with phase := .typing, line := [] } := by
      simp only [startTyping, hphase]
    exact step_append_of_nil hlimit (by rw [hstart]) (by rw [hstart]; exact ⟨rfl, rfl⟩)
  | result =>
    by_cases hsign : isOperatorSign c = true
    · have hstart : s.startTyping c = { s with phase := .typing } := by
        simp only [startTyping, hphase, hsign, if_true]
      exact step_append_of_line (by rw [hstart]; exact .continued hphase)
        (by rw [hstart]; exact ⟨rfl, rfl⟩)
    · have hstart : s.startTyping c = { s with phase := .typing, line := [] } := by
        simp only [startTyping, hphase, hsign, Bool.false_eq_true, if_false]
      exact step_append_of_nil hlimit (by rw [hstart]) (by rw [hstart]; exact ⟨rfl, rfl⟩)

theorem clear_cases (s : Keypad) :
    (s.line = blankLine ∧ s.phase = .typing ∧ s.clear = (s, false)) ∨
      s.clear =
        ({ s with line := blankLine, phase := .typing, revision := s.revision + 1 }, true) := by
  unfold clear
  simp only
  split
  · next h =>
    simp only [Bool.and_eq_true, decide_eq_true_eq] at h
    left
    refine ⟨h.1, h.2, ?_⟩
    unfold unchanged
    rw [← h.1, ← h.2]
  · right
    rfl

theorem step_clear (s : Keypad) : Step s s.clear := by
  rcases s.clear_cases with ⟨_, _, h⟩ | h
  · rw [h]
    exact .unchanged
  · rw [h]
    exact .changed _ (Nat.lt_succ_self _) rfl

theorem step_delete (s : Keypad) : Step s s.delete := by
  unfold delete
  split
  · exact s.step_clear
  · split
    · split
      · exact .unchanged
      · exact step_changed _ (Nat.le_refl _) rfl
    · exact step_changed _ (Nat.le_refl _) rfl

theorem step_togglePercent (s : Keypad) : Step s s.togglePercent := by
  have hcleared : s.revision ≤ s.clear.1.revision ∧ s.clear.1.limits = s.limits := by
    rcases s.clear_cases with ⟨_, _, h⟩ | h
    · rw [h]
      exact ⟨Nat.le_refl _, rfl⟩
    · rw [h]
      exact ⟨Nat.le_succ _, rfl⟩
  simp only [togglePercent]
  split
  · exact step_changed _ hcleared.1 hcleared.2
  · exact step_changed _ (Nat.le_refl _) rfl

theorem step_showOutcome (s : Keypad) (outcome : Except Fault (List Char)) :
    Step s (s.showOutcome outcome) := by
  cases outcome with
  | ok text => exact step_changed _ (Nat.le_refl _) rfl
  | error fault => exact step_changed _ (Nat.le_refl _) rfl

theorem step_equals (s : Keypad) : Step s s.equals := by
  unfold equals
  split
  · exact .unchanged
  · exact s.step_showOutcome _

theorem step_applyUnary (s : Keypad) (op : Unary) : Step s (s.applyUnary op) := by
  unfold applyUnary
  split
  · exact .unchanged
  · exact s.step_showOutcome _

theorem Operation.step {f : Keypad → Keypad × Bool} (hf : Operation f)
    (hlimit : 0 < s.limits.length) : Step s (f s) := by
  cases hf with
  | append => exact step_append hlimit _
  | togglePercent => exact s.step_togglePercent
  | equals => exact s.step_equals
  | clear => exact s.step_clear
  | delete => exact s.step_delete
  | applyUnary op => exact s.step_applyUnary op
  | unchanged => exact .unchanged

theorem step_press (hlimit : 0 < s.limits.length) (code : List Char) : Step s (s.press code) :=
  (operation_press code).step hlimit

/-! ### Reports -/

theorem phase_startTyping (s : Keypad) (c : Char) : (s.startTyping c).phase = .typing := by
  cases hphase : s.phase with
  | typing => simp only [startTyping, hphase]
  | result => simp only [startTyping, hphase]
  | failure => simp only [startTyping, hphase]

theorem phase_append (s : Keypad) (c : Char) : (s.append c).1.phase = .typing := by
  have hstart := s.phase_startTyping c
  simp only [append]
  split
  · exact hstart
  · split
    · exact hstart
    · split
      · exact hstart
      · exact hstart

theorem reported_showOutcome (s : Keypad) (outcome : Except Fault (List Char)) :
    (s.showOutcome outcome).2 = true := by
  cases outcome with
  | ok text => rfl
  | error fault => rfl

theorem phase_clear (s : Keypad) : s.clear.1.phase = .typing := by
  rcases s.clear_cases with ⟨_, htyping, h⟩ | h
  · rw [h]
    exact htyping
  · rw [h]

/-- What is done is reported, or it leaves the state alone, or what it leaves is being typed. -/
theorem Operation.reported {f : Keypad → Keypad × Bool} (hf : Operation f) (s : Keypad) :
    (f s).2 = true ∨ (f s).1 = s ∨ (f s).1.phase = .typing := by
  cases hf with
  | append => exact .inr (.inr (s.phase_append _))
  | togglePercent => exact .inl rfl
  | equals =>
    unfold Keypad.equals
    split
    · exact .inr (.inl rfl)
    · exact .inl (s.reported_showOutcome _)
  | clear => exact .inr (.inr s.phase_clear)
  | delete =>
    unfold Keypad.delete
    split
    · exact .inr (.inr s.phase_clear)
    · split
      · split
        · exact .inr (.inl rfl)
        · exact .inl rfl
      · exact .inl rfl
  | applyUnary op =>
    simp only [Keypad.applyUnary]
    split
    · exact .inr (.inl rfl)
    · exact .inl (s.reported_showOutcome _)
  | unchanged => exact .inr (.inl rfl)

/-- No error arises without a report. -/
theorem press_reported (s : Keypad) (code : List Char) :
    (s.press code).2 = true ∨ (s.press code).1 = s ∨ (s.press code).1.phase = .typing :=
  (operation_press code).reported s

/-! ### Revisions -/

theorem revision_le_of_step {b : Bool} (h : Step s (t, b)) : s.revision ≤ t.revision := by
  cases h with
  | changed _ revision _ => exact Nat.le_of_lt revision
  | unchanged => exact Nat.le_refl _
  | continued _ => exact Nat.le_refl _

theorem limits_of_step {b : Bool} (h : Step s (t, b)) : t.limits = s.limits := by
  cases h with
  | changed _ _ limits => exact limits
  | unchanged => rfl
  | continued _ => rfl

/-- As long as no revision has been counted, an error stands as it is. -/
theorem eq_of_step_failure {b : Bool} (h : Step s (t, b)) (hs : s.phase = .failure)
    (hrevision : t.revision ≤ s.revision) : t = s := by
  cases h with
  | changed _ revision _ => exact absurd revision (Nat.not_lt.mpr hrevision)
  | unchanged => rfl
  | continued phase =>
    rw [hs] at phase
    cases phase

end PocketCalculator.Keypad
