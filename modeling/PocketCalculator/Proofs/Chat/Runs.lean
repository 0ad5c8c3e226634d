import PocketCalculator.Chat.Keypads
import PocketCalculator.Proofs.Keypad.Press
import PocketCalculator.Proofs.Keypad.Sessions

/-!
# Runs of keypads

A run opens keypads, presses keys and lets alarms go off one by one, in any order. When all alarms
go off at once, that is a run, too.
-/

namespace PocketCalculator.Chat.Keypads

/-- What can happen next. An alarm is given by its place among those that have not gone off. -/
inductive Act where
  | opened (place : Place)
  | pressed (data : List Char) (source : Option (Place × List Char))
      (refusal : Option (List Char))
  | rang (index : Nat) (refusal : Option (List Char))

/-- One of the alarms goes off. -/
def ringAt (k : Keypads) (index : Nat) (refusal : Option (List Char)) : List Effect × Keypads :=
  match k.alarms[index]? with
  | some alarm => ({ k with alarms := k.alarms.eraseIdx index }).ring alarm refusal
  | none => ([], k)

def act (k : Keypads) : Act → List Effect × Keypads
  | .opened place => k.openAt place
  | .pressed data source refusal => k.press data source refusal
  | .rang index refusal => k.ringAt index refusal

def run (k : Keypads) (acts : List Act) : Keypads := acts.foldl (fun k a => (k.act a).2) k

theorem run_cons (k : Keypads) (a : Act) (acts : List Act) :
    k.run (a :: acts) = (k.act a).2.run acts := rfl

variable {k : Keypads} {place : Place} {refusal : Option (List Char)}

/-! ### Alarms that go off together -/

/-- An alarm that goes off neither needs the other alarms nor changes them. -/
theorem ring_alarms (k : Keypads) (alarms : List Alarm) (alarm : Alarm)
    (refusal : Option (List Char)) :
    (({ k with alarms := alarms }).ring alarm refusal).2 =
      { (k.ring alarm refusal).2 with alarms := alarms } := by
  simp only [ring]
  split
  · rfl
  · split
    · rfl
    · split
      · unfold redraw
        cases refusal with
        | none => rfl
        | some reason =>
          simp only
          split
          · rfl
          · rfl
      · rfl

theorem alarms_ring (k : Keypads) (alarm : Alarm) (refusal : Option (List Char)) :
    (k.ring alarm refusal).2.alarms = k.alarms := by
  have halarms := congrArg Keypads.alarms (k.ring_alarms k.alarms alarm refusal)
  exact halarms

/-- After all alarms have gone off none is set. -/
theorem alarms_elapse (k : Keypads) (refusal : Option (List Char)) :
    (k.elapse refusal).2.alarms = [] := by
  have hfold : ∀ (alarms : List Alarm) (s : List Effect × Keypads), s.2.alarms = [] →
      (alarms.foldl (fun s alarm =>
        (s.1 ++ (s.2.ring alarm refusal).1, (s.2.ring alarm refusal).2)) s).2.alarms = [] := by
    intro alarms
    induction alarms with
    | nil => exact fun s hs => hs
    | cons alarm alarms ih => exact fun s hs => ih _ ((s.2.alarms_ring alarm refusal).trans hs)
  exact hfold k.alarms ([], { k with alarms := [] }) rfl

theorem exists_run_of_elapse (k : Keypads) (refusal : Option (List Char)) :
    ∃ acts, (k.elapse refusal).2 = k.run acts := by
  have hfold : ∀ (alarms : List Alarm) (effects : List Effect) (k : Keypads), ∃ acts,
      (alarms.foldl (fun s alarm =>
        (s.1 ++ (s.2.ring alarm refusal).1, (s.2.ring alarm refusal).2))
        (effects, { k with alarms := [] })).2 = run { k with alarms := alarms } acts := by
    intro alarms
    induction alarms with
    | nil =>
      intro effects k
      exact ⟨[], rfl⟩
    | cons alarm alarms ih =>
      intro effects k
      have hring := ring_alarms k
      obtain ⟨acts, hacts⟩ :=
        ih (effects ++ (ring { k with alarms := [] } alarm refusal).1) (k.ring alarm refusal).2
      refine ⟨.rang 0 refusal :: acts, ?_⟩
      have hhead : (act { k with alarms := alarm :: alarms } (.rang 0 refusal)).2 =
          { (k.ring alarm refusal).2 with alarms := alarms } := hring alarms alarm refusal
      rw [run_cons, hhead, ← hacts, ← hring [] alarm refusal]
      rfl
  exact hfold k.alarms [] k

/-- Whatever happens to keypads is a run. -/
theorem exists_run_of_step (k : Keypads) (event : Event) :
    ∃ acts, (k.step event).2 = k.run acts := by
  cases event with
  | opened place => exact ⟨[.opened place], rfl⟩
  | pressed data source refusal => exact ⟨[.pressed data source refusal], rfl⟩
  | elapsed refusal => exact k.exists_run_of_elapse refusal

/-! ### What an act does to the sessions -/

theorem redraw_cases (k : Keypads) (place : Place) (state : Keypad)
    (refusal : Option (List Char)) (changed : Bool) :
    (if changed then k.redraw place state refusal else ([], k)).2 = k ∨
      (if changed then k.redraw place state refusal else ([], k)).2 =
        { k with sessions := k.sessions.drop place } := by
  cases changed with
  | false =>
    left
    rfl
  | true =>
    rw [if_pos rfl]
    cases refusal with
    | none =>
      left
      rfl
    | some reason =>
      by_cases hgone : isGone reason = true
      · right
        simp only [redraw, if_pos hgone]
      · left
        simp only [redraw, if_neg hgone]

/-- The state that a press leaves on the keypad at a place. -/
def stateAfter (k : Keypads) (place : Place) (shown code : List Char) : Keypad :=
  ((k.sessions.get place shown).1.press code).1

/-- The keypads after a press, before anything is drawn. -/
def pressed (k : Keypads) (place : Place) (shown code : List Char) : Keypads :=
  { k with
    sessions := (k.sessions.get place shown).2.update place (k.stateAfter place shown code)
    locks := (k.locks.forKeypad place).2 }

theorem pressAt_sessions (k : Keypads) (place : Place) (shown code : List Char)
    (refusal : Option (List Char)) :
    ∃ s : Sessions Place,
      s = (k.sessions.get place shown).2.update place (k.stateAfter place shown code) ∧
      ((k.pressAt place shown code refusal).2.sessions = s ∨
        (k.pressAt place shown code refusal).2.sessions = s.drop place) := by
  refine ⟨_, rfl, ?_⟩
  have hcases := (k.pressed place shown code).redraw_cases place (k.stateAfter place shown code)
    refusal ((k.sessions.get place shown).1.press code).2
  simp only [pressAt]
  split
  · exact hcases.imp (congrArg sessions) (congrArg sessions)
  · exact hcases.imp (congrArg sessions) (congrArg sessions)

/-- An alarm is set if the press has reported a change and left an error. -/
theorem alarms_pressAt (k : Keypads) (place : Place) (shown code : List Char)
    (refusal : Option (List Char)) :
    (k.pressAt place shown code refusal).2.alarms =
      if ((k.sessions.get place shown).1.press code).2 &&
          (k.stateAfter place shown code).phase = .failure then
        k.alarms ++ [⟨place, (k.stateAfter place shown code).revision⟩]
      else k.alarms := by
  have hcases := (k.pressed place shown code).redraw_cases place (k.stateAfter place shown code)
    refusal ((k.sessions.get place shown).1.press code).2
  have halarms := hcases.elim (congrArg alarms) (congrArg alarms)
  simp only [pressAt]
  split
  · next h => exact (congrArg (· ++ [_]) halarms).trans (if_pos h).symm
  · next h => exact halarms.trans (if_neg h).symm

theorem press_cases (k : Keypads) (data : List Char) (source : Option (Place × List Char))
    (refusal : Option (List Char)) :
    (k.press data source refusal).2 = k ∨ ∃ place shown, source = some (place, shown) ∧
      (k.press data source refusal).2 =
        (k.pressAt place shown (Key.codeOfData data) refusal).2 := by
  simp only [press]
  split
  · split
    · left
      rfl
    · right
      exact ⟨_, _, rfl, rfl⟩
  · left
    rfl

/-- An alarm finds the revision that it was set for, or it leaves the sessions alone. -/
theorem ring_sessions (k : Keypads) (alarm : Alarm) (refusal : Option (List Char)) :
    ((k.ring alarm refusal).2.sessions = k.sessions ∧
        ∀ state, k.sessions.peek alarm.place = some state → state.revision ≠ alarm.revision) ∨
      ∃ state s, k.sessions.peek alarm.place = some state ∧ state.revision = alarm.revision ∧
        s = k.sessions.update alarm.place state.clear.1 ∧
        ((k.ring alarm refusal).2.sessions = s ∨
          (k.ring alarm refusal).2.sessions = s.drop alarm.place) := by
  simp only [ring]
  split
  · next hnone =>
    left
    refine ⟨rfl, fun state hstate => ?_⟩
    rw [hnone] at hstate
    cases hstate
  · next state hstate =>
    split
    · next hrevision =>
      left
      refine ⟨rfl, fun state' hstate' => ?_⟩
      rw [hstate] at hstate'
      cases hstate'
      exact hrevision
    · next hrevision =>
      right
      refine ⟨state, _, hstate, Decidable.not_not.mp hrevision, rfl, ?_⟩
      have hcases := redraw_cases
        { k with
          sessions := k.sessions.update alarm.place state.clear.1
          locks := (k.locks.forKeypad alarm.place).2 }
        alarm.place state.clear.1 refusal state.clear.2
      exact hcases.imp (congrArg sessions) (congrArg sessions)

theorem ringAt_sessions (k : Keypads) (index : Nat) (refusal : Option (List Char)) :
    (k.ringAt index refusal).2.sessions = k.sessions ∨
      ∃ place state s, k.sessions.peek place = some state ∧
        s = k.sessions.update place state.clear.1 ∧
        ((k.ringAt index refusal).2.sessions = s ∨
          (k.ringAt index refusal).2.sessions = s.drop place) := by
  unfold ringAt
  split
  · next alarm _ =>
    rcases ring_sessions { k with alarms := k.alarms.eraseIdx index } alarm refusal with
      ⟨h, _⟩ | ⟨state, s, hstate, _, hs, h⟩
    · left
      exact h
    · right
      exact ⟨alarm.place, state, s, hstate, hs, h⟩
  · left
    rfl

section Sessions

variable {s s' : Sessions Place} {place place' : Place} {state σ τ : Keypad}

theorem peek_of_drop (h : s' = s ∨ s' = s.drop place) (hstate : s'.peek place' = some state) :
    s.peek place' = some state := by
  rcases h with rfl | rfl
  · exact hstate
  · by_cases hplace : place' = place
    · rw [hplace, Sessions.peek_drop_self] at hstate
      cases hstate
    · rw [Sessions.peek_drop_of_ne hplace] at hstate
      exact hstate

theorem valid_of_drop (h : s' = s ∨ s' = s.drop place) (hs : s.Valid) :
    s'.Valid ∧ s'.limits = s.limits := by
  rcases h with rfl | rfl
  · exact ⟨hs, rfl⟩
  · exact ⟨hs.drop place, rfl⟩

theorem distinct_of_drop (h : s' = s ∨ s' = s.drop place) (hs : s.states.Distinct) :
    s'.states.Distinct := by
  rcases h with rfl | rfl
  · exact hs
  · exact hs.erase place

/-- No keypad gets a second state. -/
theorem distinct_act (hk : k.sessions.states.Distinct) (a : Act) :
    (k.act a).2.sessions.states.Distinct := by
  cases a with
  | opened place => exact (hk.put place _).trimTo _
  | pressed data source refusal =>
    rcases press_cases k data source refusal with h | ⟨place, shown, _, h⟩
    · rw [act, h]
      exact hk
    · rw [act, h]
      obtain ⟨s, rfl, hs⟩ := pressAt_sessions k place shown (Key.codeOfData data) refusal
      exact distinct_of_drop hs (((hk.put place _).trimTo _).replace place _)
  | rang index refusal =>
    rcases ringAt_sessions k index refusal with h | ⟨place, state, s, _, rfl, hs⟩
    · rw [act, h]
      exact hk
    · exact distinct_of_drop hs (hk.replace place _)

theorem clear_limits (state : Keypad) : state.clear.1.limits = state.limits :=
  Keypad.limits_of_step (b := state.clear.2) state.step_clear

theorem stateAfter_limits (hk : k.sessions.Valid) (hlimit : 0 < k.sessions.limits.length)
    (place : Place) (shown code : List Char) :
    (k.stateAfter place shown code).limits = k.sessions.limits := by
  have hget := Sessions.get_limits hk place shown
  have hpress := Keypad.step_press (by rw [hget]; exact hlimit) code
  exact (Keypad.limits_of_step hpress).trans hget

/-- The sessions stay valid, and their limit stays as it is. -/
theorem valid_act (hk : k.sessions.Valid) (hlimit : 0 < k.sessions.limits.length) (a : Act) :
    (k.act a).2.sessions.Valid ∧ (k.act a).2.sessions.limits = k.sessions.limits := by
  cases a with
  | opened place => exact ⟨hk.get place [], rfl⟩
  | pressed data source refusal =>
    rcases press_cases k data source refusal with h | ⟨place, shown, _, h⟩
    · rw [act, h]
      exact ⟨hk, rfl⟩
    · rw [act, h]
      obtain ⟨s, rfl, hs⟩ := pressAt_sessions k place shown (Key.codeOfData data) refusal
      have hvalid := (hk.get place shown).update place
        (stateAfter_limits hk hlimit place shown (Key.codeOfData data))
      obtain ⟨hdropped, hsame⟩ := valid_of_drop hs hvalid
      exact ⟨hdropped, hsame⟩
  | rang index refusal =>
    rcases ringAt_sessions k index refusal with h | ⟨place, state, s, hstate, rfl, hs⟩
    · rw [act, h]
      exact ⟨hk, rfl⟩
    · have hvalid := hk.update place ((clear_limits state).trans (hk.peek_limits hstate))
      obtain ⟨hdropped, hsame⟩ := valid_of_drop hs hvalid
      exact ⟨hdropped, hsame⟩

/-- What an act does to a state that is kept: it is as before, or a key was pressed, or it was
cleared. -/
theorem step_of_act (hk : k.sessions.Valid) (hlimit : 0 < k.sessions.limits.length) {a : Act}
    (hσ : k.sessions.peek place = some σ) (hτ : (k.act a).2.sessions.peek place = some τ) :
    ∃ changed, σ.Step (τ, changed) := by
  have hkept : τ = σ → ∃ changed, σ.Step (τ, changed) := by
    rintro rfl
    exact ⟨false, .unchanged⟩
  have hsame : k.sessions.peek place = some τ → ∃ changed, σ.Step (τ, changed) :=
    fun h => hkept (Option.some.inj (h.symm.trans hσ))
  cases a with
  | opened place' => exact hkept (Sessions.eq_of_peek_get hk hσ hτ)
  | pressed data source refusal =>
    rcases press_cases k data source refusal with h | ⟨place', shown, _, h⟩
    · rw [act, h] at hτ
      exact hsame hτ
    · rw [act, h] at hτ
      obtain ⟨s, rfl, hs⟩ := pressAt_sessions k place' shown (Key.codeOfData data) refusal
      have hpeek := peek_of_drop hs hτ
      by_cases hplace : place = place'
      · subst hplace
        rw [Sessions.peek_update_self] at hpeek
        obtain ⟨_, _, rfl⟩ := Option.map_eq_some_iff.mp hpeek
        unfold stateAfter
        rw [Sessions.get_of_peek hσ]
        exact ⟨_, Keypad.step_press (by rw [hk.peek_limits hσ]; exact hlimit) _⟩
      · rw [Sessions.peek_update_of_ne hplace] at hpeek
        exact hkept (Sessions.eq_of_peek_get hk hσ hpeek)
  | rang index refusal =>
    rcases ringAt_sessions k index refusal with h | ⟨place', state, s, hstate, rfl, hs⟩
    · rw [act, h] at hτ
      exact hsame hτ
    · have hpeek := peek_of_drop hs hτ
      by_cases hplace : place = place'
      · subst hplace
        rw [hσ] at hstate
        cases hstate
        rw [Sessions.peek_update_self, hσ] at hpeek
        cases hpeek
        exact ⟨_, σ.step_clear⟩
      · rw [Sessions.peek_update_of_ne hplace] at hpeek
        exact hsame hpeek

end Sessions

theorem valid_run (hk : k.sessions.Valid) (hlimit : 0 < k.sessions.limits.length)
    (acts : List Act) :
    (k.run acts).sessions.Valid ∧ (k.run acts).sessions.limits = k.sessions.limits := by
  induction acts generalizing k with
  | nil => exact ⟨hk, rfl⟩
  | cons a acts ih =>
    obtain ⟨hvalid, hsame⟩ := valid_act hk hlimit a
    have hrest := ih hvalid (by rw [hsame]; exact hlimit)
    rw [hsame] at hrest
    exact hrest

theorem valid_run_empty {capacity locks : Nat} {limits : Limits} (hlimit : 0 < limits.length)
    (acts : List Act) :
    ((empty capacity locks limits).run acts).sessions.Valid ∧
      0 < ((empty capacity locks limits).run acts).sessions.limits.length := by
  obtain ⟨hvalid, hsame⟩ :=
    valid_run (k := empty capacity locks limits) (Sessions.valid_empty _ _) hlimit acts
  exact ⟨hvalid, by rw [hsame]; exact hlimit⟩

end PocketCalculator.Chat.Keypads
