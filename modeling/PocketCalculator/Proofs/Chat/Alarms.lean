import PocketCalculator.Proofs.Chat.Runs

/-!
# Alarms and the errors they are set for

An alarm is to clear the error that it was set for, and nothing else. It knows this error by a
revision. As long as the state of the keypad is kept this is enough. A state that is let go of is
set up again with revision zero, and then an alarm may take what has been typed for its error.
-/

namespace PocketCalculator.Chat.Keypads

variable {k k' : Keypads} {place : Place} {alarm : Alarm} {σ τ : Keypad}

/-- The state of the keypad at a place is kept all the time. -/
def KeptThrough (k : Keypads) (place : Place) (acts : List Act) : Prop :=
  ∀ early, early <+: acts → (k.run early).sessions.contains place = true

/-- The keypad at a place is in this state all the time. -/
def StaysThrough (k : Keypads) (place : Place) (state : Keypad) (acts : List Act) : Prop :=
  ∀ early, early <+: acts → (k.run early).sessions.peek place = some state

theorem KeptThrough.tail {a : Act} {acts : List Act} (h : k.KeptThrough place (a :: acts)) :
    (k.act a).2.KeptThrough place acts :=
  fun early hearly => h (a :: early) (List.cons_prefix_cons.mpr ⟨rfl, hearly⟩)

theorem KeptThrough.exists_act {a : Act} {acts : List Act}
    (h : k.KeptThrough place (a :: acts)) :
    ∃ state, (k.act a).2.sessions.peek place = some state :=
  Sessions.contains_iff.mp (h.tail [] List.nil_prefix)

/-! ### Errors that stay -/

theorem revision_le_of_kept (hk : k.sessions.Valid) (hlimit : 0 < k.sessions.limits.length)
    {acts : List Act} (hkept : k.KeptThrough place acts) (hσ : k.sessions.peek place = some σ)
    (hτ : (k.run acts).sessions.peek place = some τ) : σ.revision ≤ τ.revision := by
  induction acts generalizing k σ with
  | nil =>
    have hsame : k.sessions.peek place = some τ := hτ
    rw [hσ] at hsame
    cases hsame
    exact Nat.le_refl _
  | cons a acts ih =>
    obtain ⟨hvalid, hsame⟩ := valid_act hk hlimit a
    obtain ⟨ρ, hρ⟩ := hkept.exists_act
    obtain ⟨_, hstep⟩ := step_of_act hk hlimit hσ hρ
    have hrest := ih hvalid (by rw [hsame]; exact hlimit) hkept.tail hρ hτ
    exact Nat.le_trans (Keypad.revision_le_of_step hstep) hrest

/-- An error in a state that is kept has been there all the time, if its revision still stands. -/
theorem staysThrough_of_kept (hk : k.sessions.Valid) (hlimit : 0 < k.sessions.limits.length)
    {acts : List Act} (hkept : k.KeptThrough place acts) (hσ : k.sessions.peek place = some σ)
    (herror : σ.phase = .failure) (hτ : (k.run acts).sessions.peek place = some τ)
    (hrevision : τ.revision = σ.revision) : k.StaysThrough place σ acts := by
  induction acts generalizing k with
  | nil =>
    intro early hearly
    rw [List.prefix_nil.mp hearly]
    exact hσ
  | cons a acts ih =>
    obtain ⟨hvalid, hsame⟩ := valid_act hk hlimit a
    obtain ⟨ρ, hρ⟩ := hkept.exists_act
    obtain ⟨_, hstep⟩ := step_of_act hk hlimit hσ hρ
    have hlimit' : 0 < (k.act a).2.sessions.limits.length := by
      rw [hsame]
      exact hlimit
    have hlater := revision_le_of_kept hvalid hlimit' hkept.tail hρ hτ
    rw [hrevision] at hlater
    rw [Keypad.eq_of_step_failure hstep herror hlater] at hρ
    intro early hearly
    rcases List.prefix_cons_iff.mp hearly with rfl | ⟨rest, rfl, hrest⟩
    · exact hσ
    · exact ih hvalid hlimit' hkept.tail hρ hτ rest hrest

/-! ### Setting an alarm, and its going off -/

theorem pressAt_alarms (k : Keypads) (place : Place) (shown code : List Char)
    (refusal : Option (List Char)) :
    (k.pressAt place shown code refusal).2.alarms = k.alarms ∨
      (k.stateAfter place shown code).phase = .failure ∧
        (k.pressAt place shown code refusal).2.alarms =
          k.alarms ++ [⟨place, (k.stateAfter place shown code).revision⟩] := by
  rw [alarms_pressAt]
  split
  · next h =>
    simp only [Bool.and_eq_true, decide_eq_true_eq] at h
    exact .inr ⟨h.2, rfl⟩
  · exact .inl rfl

theorem alarm_of_press {data shown : List Char} {refusal : Option (List Char)}
    (hset : (k.press data (some (place, shown)) refusal).2.alarms = k.alarms ++ [alarm]) :
    (k.press data (some (place, shown)) refusal).2 =
        (k.pressAt place shown (Key.codeOfData data) refusal).2 ∧
      (k.stateAfter place shown (Key.codeOfData data)).phase = .failure ∧
      alarm = ⟨place, (k.stateAfter place shown (Key.codeOfData data)).revision⟩ := by
  rcases press_cases k data (some (place, shown)) refusal with h | ⟨_, _, hsource, h⟩
  · rw [h] at hset
    exact absurd hset (by simp)
  · cases hsource
    rw [h] at hset
    rcases pressAt_alarms k place shown (Key.codeOfData data) refusal with hnone | ⟨herror, hset'⟩
    · rw [hnone] at hset
      exact absurd hset (by simp)
    · rw [hset'] at hset
      have halarm := List.append_cancel_left hset
      cases halarm
      exact ⟨h, herror, rfl⟩

theorem peek_of_pressAt {shown code : List Char} {refusal : Option (List Char)}
    (h : (k.pressAt place shown code refusal).2.sessions.peek place = some τ) :
    τ = k.stateAfter place shown code := by
  obtain ⟨s, rfl, hs⟩ := pressAt_sessions k place shown code refusal
  have hpeek := peek_of_drop hs h
  rw [Sessions.peek_update_self] at hpeek
  obtain ⟨_, _, hstate⟩ := Option.map_eq_some_iff.mp hpeek
  exact hstate.symm

theorem peek_of_ring {refusal : Option (List Char)}
    (h : (k.ring alarm refusal).2.sessions.peek alarm.place ≠ k.sessions.peek alarm.place) :
    ∃ state, k.sessions.peek alarm.place = some state ∧ state.revision = alarm.revision := by
  rcases ring_sessions k alarm refusal with ⟨hsame, _⟩ | ⟨state, _, hstate, hrevision, _⟩
  · rw [hsame] at h
    exact absurd rfl h
  · exact ⟨state, hstate, hrevision⟩

/-- Of the alarms that change something when they go off, those clear the error that they were set
for whose keypad has been kept since then, and no others. -/
theorem alarm_clears_its_error_iff {capacity locks : Nat} {limits : Limits}
    (hlimit : 0 < limits.length) {before after : List Act} {data shown : List Char}
    {refusal refusal' : Option (List Char)} {error : Keypad}
    (hk : (empty capacity locks limits).run before = k)
    (herror : k.stateAfter place shown (Key.codeOfData data) = error)
    (hk' : (k.act (.pressed data (some (place, shown)) refusal)).2 = k')
    (hset : k'.alarms = k.alarms ++ [alarm])
    (hchange : ((k'.run after).ring alarm refusal').2.sessions.peek place ≠
      (k'.run after).sessions.peek place) :
    error.phase = .failure ∧ alarm = ⟨place, error.revision⟩ ∧
      (k'.StaysThrough place error after ↔ k'.KeptThrough place after) := by
  obtain ⟨hvalid, hpositive⟩ : k.sessions.Valid ∧ 0 < k.sessions.limits.length := by
    rw [← hk]
    exact valid_run_empty hlimit before
  obtain ⟨hvalid', hsame⟩ :=
    valid_act hvalid hpositive (.pressed data (some (place, shown)) refusal)
  rw [hk'] at hvalid' hsame
  have hpress : (k.press data (some (place, shown)) refusal).2 = k' := hk'
  rw [← hpress] at hset
  obtain ⟨hpressAt, hphase, halarm⟩ := alarm_of_press hset
  rw [herror] at hphase halarm
  refine ⟨hphase, halarm, ?_, ?_⟩
  · intro hstays early hearly
    exact Sessions.contains_iff.mpr ⟨error, hstays early hearly⟩
  · intro hkept
    obtain ⟨σ, hσ⟩ := Sessions.contains_iff.mp (hkept [] List.nil_prefix)
    have hstate : σ = error := by
      have hpeek : k'.sessions.peek place = some σ := hσ
      rw [← hpress, hpressAt] at hpeek
      exact (peek_of_pressAt hpeek).trans herror
    rw [halarm] at hchange
    obtain ⟨τ, hτ, hrevision⟩ := peek_of_ring hchange
    rw [hstate] at hσ
    exact staysThrough_of_kept hvalid' (by rw [hsame]; exact hpositive) hkept hσ hphase hτ hrevision

/-- Of two keypads there is room for, the other one is used before the alarm goes off. -/
theorem alarm_clears_its_error_iff_of_room :
    let k := (empty 2 2 .standard).run [.pressed "kp:(".toList (some (⟨1, 10⟩, ['0'])) none]
    let k' := (k.act (.pressed "kp:=".toList (some (⟨1, 10⟩, ['('])) none)).2
    let error := k.stateAfter ⟨1, 10⟩ ['('] ['=']
    let after := [Act.pressed "kp:7".toList (some (⟨1, 11⟩, ['0'])) none]
    error.phase = .failure ∧ Alarm.mk ⟨1, 10⟩ 2 = ⟨⟨1, 10⟩, error.revision⟩ ∧
      (k'.StaysThrough ⟨1, 10⟩ error after ↔ k'.KeptThrough ⟨1, 10⟩ after) := by
  intro k k' error after
  have hset : k'.alarms = k.alarms ++ [⟨⟨1, 10⟩, 2⟩] := by decide +kernel
  have hchange : ((k'.run after).ring ⟨⟨1, 10⟩, 2⟩ none).2.sessions.peek ⟨1, 10⟩ ≠
      (k'.run after).sessions.peek ⟨1, 10⟩ := by decide +kernel
  exact alarm_clears_its_error_iff (by decide) rfl rfl rfl hset hchange

/-- With room for one keypad only, using another one lets the error go. The alarm that was set for
it then erases the two digits that have been typed since. -/
theorem alarm_erases_typed_digits :
    let k := (empty 1 1 .standard).run [.pressed "kp:(".toList (some (⟨1, 10⟩, ['0'])) none]
    let k' := (k.act (.pressed "kp:=".toList (some (⟨1, 10⟩, ['('])) none)).2
    let k'' := k'.run [.pressed "kp:7".toList (some (⟨1, 11⟩, ['0'])) none,
      .pressed "kp:1".toList (some (⟨1, 10⟩, "Error: Unbalanced parentheses".toList)) none,
      .pressed "kp:2".toList (some (⟨1, 10⟩, ['1'])) none]
    k'.alarms = k.alarms ++ [⟨⟨1, 10⟩, 2⟩] ∧
      k''.sessions.peek ⟨1, 10⟩ = some ⟨['1', '2'], .typing, 2, .standard⟩ ∧
      (k''.act (.rang 0 none)).2.sessions.peek ⟨1, 10⟩ = some ⟨['0'], .typing, 3, .standard⟩ := by
  refine ⟨?_, ?_, ?_⟩
  · decide +kernel
  · decide +kernel
  · decide +kernel

end PocketCalculator.Chat.Keypads
