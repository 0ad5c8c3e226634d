import PocketCalculator.Proofs.Chat.Runs

/-!
# Errors come to an end

A stored error always has an alarm that is set for it and knows its revision, whatever happens to
this keypad and to the other ones. So no error is left when no alarm is.
-/

namespace PocketCalculator.Chat.Keypads

variable {k : Keypads} {place q : Place} {alarm : Alarm} {σ : Keypad}
  {refusal : Option (List Char)}

/-- Every error that is stored has an alarm with its revision. -/
def Guarded (k : Keypads) : Prop :=
  ∀ place σ, k.sessions.peek place = some σ → σ.phase = .failure →
    Alarm.mk place σ.revision ∈ k.alarms

theorem Guarded.no_error (h : k.Guarded) (hnone : k.alarms = []) (place : Place) (σ : Keypad)
    (hσ : k.sessions.peek place = some σ) : σ.phase ≠ .failure := by
  intro hphase
  have halarm := h place σ hσ hphase
  rw [hnone] at halarm
  cases halarm

/-! ### Getting a state -/

/-- An error is never set up from what is shown; it must have been stored. -/
theorem peek_of_get_failure {shown : List Char}
    (h : (k.sessions.get place shown).1.phase = .failure) :
    k.sessions.peek place = some (k.sessions.get place shown).1 := by
  cases hpeek : k.sessions.peek place with
  | some σ => rw [Sessions.get_of_peek hpeek]
  | none =>
    rw [Sessions.get_of_peek_none hpeek, Keypad.ofDisplay] at h
    split at h
    · cases h
    · cases h

theorem peek_of_get {shown : List Char} (hk : k.sessions.states.Distinct)
    (hσ : (k.sessions.get place shown).2.peek q = some σ) (hphase : σ.phase = .failure) :
    k.sessions.peek q = some σ := by
  rcases Sessions.peek_get_of_distinct hk hσ with ⟨rfl, rfl⟩ | ⟨_, hpeek⟩
  · exact peek_of_get_failure hphase
  · exact hpeek

/-! ### One act -/

theorem mem_alarms_pressAt {shown code : List Char} (h : alarm ∈ k.alarms) :
    alarm ∈ (k.pressAt place shown code refusal).2.alarms := by
  rw [alarms_pressAt]
  split
  · exact List.mem_append_left _ h
  · exact h

/-- The error that a press leaves has just got its alarm, or it was there before. -/
theorem guards_stateAfter {shown code : List Char} (h : k.Guarded)
    (hphase : (k.stateAfter place shown code).phase = .failure) :
    ⟨place, (k.stateAfter place shown code).revision⟩ ∈
      (k.pressAt place shown code refusal).2.alarms := by
  rcases (k.sessions.get place shown).1.press_reported code with hreported | hsame | htyping
  · rw [alarms_pressAt, hreported, hphase]
    exact List.mem_append_right _ (List.mem_singleton_self _)
  · have hstate : k.stateAfter place shown code = (k.sessions.get place shown).1 := hsame
    rw [hstate] at hphase ⊢
    exact mem_alarms_pressAt (h place _ (peek_of_get_failure hphase) hphase)
  · have hstate : (k.stateAfter place shown code).phase = .typing := htyping
    rw [hstate] at hphase
    cases hphase

theorem guarded_pressAt (hk : k.sessions.states.Distinct) (h : k.Guarded) (place : Place)
    (shown code : List Char) (refusal : Option (List Char)) :
    (k.pressAt place shown code refusal).2.Guarded := by
  intro q σ hσ hphase
  obtain ⟨s, rfl, hs⟩ := pressAt_sessions k place shown code refusal
  rcases Sessions.peek_of_update (peek_of_drop hs hσ) with ⟨rfl, rfl⟩ | ⟨_, hpeek⟩
  · exact guards_stateAfter h hphase
  · exact mem_alarms_pressAt (h q σ (peek_of_get hk hpeek hphase) hphase)

/-- An error that is left when an alarm goes off was there before, and the alarm was not its own. -/
theorem peek_of_ring_failure (hσ : (k.ring alarm refusal).2.sessions.peek q = some σ)
    (hphase : σ.phase = .failure) :
    k.sessions.peek q = some σ ∧ alarm ≠ ⟨q, σ.revision⟩ := by
  rcases ring_sessions k alarm refusal with ⟨hsame, hother⟩ | ⟨state, s, _, _, rfl, hs⟩
  · rw [hsame] at hσ
    refine ⟨hσ, ?_⟩
    rintro rfl
    exact hother σ hσ rfl
  · rcases Sessions.peek_of_update (peek_of_drop hs hσ) with ⟨_, rfl⟩ | ⟨hq, hpeek⟩
    · rw [state.phase_clear] at hphase
      cases hphase
    · refine ⟨hpeek, ?_⟩
      rintro rfl
      exact hq rfl

theorem guarded_ringAt (h : k.Guarded) (index : Nat) (refusal : Option (List Char)) :
    (k.ringAt index refusal).2.Guarded := by
  unfold ringAt
  split
  · next alarm halarm =>
    intro q σ hσ hphase
    obtain ⟨hpeek, hother⟩ := peek_of_ring_failure hσ hphase
    obtain ⟨j, hj⟩ := List.getElem?_of_mem (h q σ hpeek hphase)
    rw [alarms_ring]
    -- The alarm of this error stands elsewhere in the list, so it is not the one taken out.
    have hne : j ≠ index := by
      rintro rfl
      rw [hj] at halarm
      exact hother (Option.some.inj halarm).symm
    exact List.mem_eraseIdx_iff_getElem?.mpr ⟨j, hne, hj⟩
  · exact h

theorem guarded_act (hk : k.sessions.states.Distinct) (h : k.Guarded) (a : Act) :
    (k.act a).2.Guarded := by
  cases a with
  | opened place =>
    intro q σ hσ hphase
    exact h q σ (peek_of_get hk hσ hphase) hphase
  | pressed data source refusal =>
    rcases press_cases k data source refusal with hsame | ⟨place, shown, _, hpress⟩
    · rw [act, hsame]
      exact h
    · rw [act, hpress]
      exact guarded_pressAt hk h place shown _ refusal
  | rang index refusal => exact guarded_ringAt h index refusal

/-! ### Runs -/

theorem guarded_run (hk : k.sessions.states.Distinct) (h : k.Guarded) (acts : List Act) :
    (k.run acts).Guarded := by
  induction acts generalizing k with
  | nil => exact h
  | cons a acts ih => exact ih (distinct_act hk a) (guarded_act hk h a)

theorem guarded_run_empty (capacity locks : Nat) (limits : Limits) (acts : List Act) :
    ((empty capacity locks limits).run acts).Guarded :=
  guarded_run (k := empty capacity locks limits) List.nodup_nil (fun _ _ hσ => by cases hσ) acts

theorem run_append (k : Keypads) (acts acts' : List Act) :
    k.run (acts ++ acts') = (k.run acts).run acts' := List.foldl_append

/-- After every act each error that is stored has an alarm with its revision. So no error is stored
when no alarm is set any more, and none is stored right after all alarms have gone off. -/
theorem errors_come_to_an_end (capacity locks : Nat) (limits : Limits) (acts : List Act) :
    let k := (empty capacity locks limits).run acts
    (∀ place σ, k.sessions.peek place = some σ → σ.phase = .failure →
        Alarm.mk place σ.revision ∈ k.alarms) ∧
      (∀ rest, (k.run rest).alarms = [] → ∀ place σ,
        (k.run rest).sessions.peek place = some σ → σ.phase ≠ .failure) ∧
      ∀ refusal place σ, (k.elapse refusal).2.sessions.peek place = some σ →
        σ.phase ≠ .failure := by
  intro k
  refine ⟨guarded_run_empty capacity locks limits acts, ?_, ?_⟩
  · intro rest hnone
    have hguarded := guarded_run_empty capacity locks limits (acts ++ rest)
    rw [run_append] at hguarded
    exact hguarded.no_error hnone
  · intro refusal
    have hnone := k.alarms_elapse refusal
    obtain ⟨rest, hrest⟩ := k.exists_run_of_elapse refusal
    have hguarded := guarded_run_empty capacity locks limits (acts ++ rest)
    rw [run_append, show run (run _ acts) rest = (k.elapse refusal).2 from hrest.symm] at hguarded
    exact hguarded.no_error hnone

/-- The edit that was to show the error is refused. -/
theorem errors_come_to_an_end_of_refused :
    let k := (empty 1 1 .standard).run [.pressed "kp:(".toList (some (⟨1, 10⟩, ['0'])) none,
      .pressed "kp:=".toList (some (⟨1, 10⟩, ['('])) (some "message is not modified".toList)]
    k.sessions.peek ⟨1, 10⟩ =
        some ⟨"Error: Unbalanced parentheses".toList, .failure, 2, .standard⟩ ∧
      Alarm.mk ⟨1, 10⟩ 2 ∈ k.alarms ∧ (k.run [.rang 0 none]).alarms = [] ∧
      ∀ place σ, (k.run [.rang 0 none]).sessions.peek place = some σ → σ.phase ≠ .failure := by
  intro k
  have hstored : k.sessions.peek ⟨1, 10⟩ =
      some ⟨"Error: Unbalanced parentheses".toList, .failure, 2, .standard⟩ := by decide +kernel
  have hnone : (k.run [.rang 0 none]).alarms = [] := by decide +kernel
  obtain ⟨halarm, hend, _⟩ := errors_come_to_an_end 1 1 .standard
    [.pressed "kp:(".toList (some (⟨1, 10⟩, ['0'])) none,
      .pressed "kp:=".toList (some (⟨1, 10⟩, ['('])) (some "message is not modified".toList)]
  exact ⟨hstored, halarm _ _ hstored rfl, hnone, hend _ hnone⟩

end PocketCalculator.Chat.Keypads
