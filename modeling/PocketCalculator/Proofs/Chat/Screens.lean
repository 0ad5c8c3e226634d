import PocketCalculator.Proofs.Chat.Runs
import PocketCalculator.Proofs.Keypad.Lines
import PocketCalculator.Proofs.Text.Markup

/-!
# What messages show and what is stored

A message is edited only if a key reports a change. As long as edits succeed, every keypad that is
stored is the one that its message shows, with one exception: an error whose keypad has been let go
of is taken for a new keypad, and a key that changes nothing on a new keypad leaves the error
standing (`stored_shown_iff`).
-/

namespace PocketCalculator

namespace Chat.Keypads

theorem render_eq_iff {σ τ : Keypad} : render σ = render τ ↔ σ.display = τ.display := by
  constructor
  · intro h
    exact Markup.code_injective (congrArg Message.text h)
  · intro h
    rw [render, h]
    rfl

/-! ### Scenes -/

/-- Keypads, and what is shown at the places of messages. -/
structure Scene where
  keypads : Keypads
  screens : Place → Option Message

/-- What is shown after something has been sent or edited. -/
def drawn (screens : Place → Option Message) : Effect → Place → Option Message
  | .sent place message => Function.update screens place (some message)
  | .edited place message => Function.update screens place (some message)
  | .acknowledged => screens

namespace Scene

def act (s : Scene) (a : Act) : Scene :=
  ⟨(s.keypads.act a).2, (s.keypads.act a).1.foldl drawn s.screens⟩

def run (s : Scene) (acts : List Act) : Scene := acts.foldl act s

/-- What can happen while no edit fails: a keypad is opened as a new message, a key is pressed below
a message, whose text comes with it, or an alarm goes off. -/
inductive Admits (s : Scene) : Act → Prop where
  | opened {place : Place} (unused : s.screens place = none) : s.Admits (.opened place)
  | pressed {data shown : List Char} {place : Place}
      (visible : s.screens place = some ⟨Markup.code shown, true, some .keypad⟩) :
      s.Admits (.pressed data (some (place, shown)) none)
  | pressedNowhere {data : List Char} : s.Admits (.pressed data none none)
  | rang {index : Nat} : s.Admits (.rang index none)

/-- Every keypad that is stored is the one that its message shows. -/
def InSync (s : Scene) : Prop :=
  ∀ place σ, s.keypads.sessions.peek place = some σ → s.screens place = some (render σ)

/-- A key is pressed on an error whose keypad has been let go of, and changes nothing on a new
keypad. -/
def LeavesError (s : Scene) : Act → Prop
  | .pressed data (some (place, shown)) none =>
    Key.codeOfData data ≠ [] ∧ IsErrorText shown ∧ s.keypads.sessions.peek place = none ∧
      ((Keypad.fresh s.keypads.sessions.limits).press (Key.codeOfData data)).2 = false
  | _ => False

instance (s : Scene) : (a : Act) → Decidable (s.LeavesError a)
  | .opened _ => .isFalse id
  | .pressed _ (some _) none => inferInstanceAs (Decidable (_ ∧ _ ∧ _ ∧ _))
  | .pressed _ (some _) (some _) => .isFalse id
  | .pressed _ none _ => .isFalse id
  | .rang _ _ => .isFalse id

/-- In a run, every act and the scene in which it happens have the property. -/
def Always (P : Scene → Act → Prop) (s : Scene) : List Act → Prop
  | [] => True
  | a :: acts => P s a ∧ (s.act a).Always P acts

structure Regular (s : Scene) : Prop where
  valid : s.keypads.sessions.Valid
  limit_pos : 0 < s.keypads.sessions.limits.length
  capacity_pos : 0 < s.keypads.sessions.capacity
  stored : ∀ place σ, s.keypads.sessions.peek place = some σ → σ.Legible
  shown : ∀ place m, s.screens place = some m → ∃ σ : Keypad, σ.Legible ∧ m = render σ

end Scene

/-! ### What an act changes -/

theorem pressAt_unrefused (k : Keypads) (place : Place) (shown code : List Char) :
    (k.pressAt place shown code none).2.sessions =
        (k.sessions.get place shown).2.update place (k.stateAfter place shown code) ∧
      (k.pressAt place shown code none).1 =
        if ((k.sessions.get place shown).1.press code).2 then
          [.edited place (render (k.stateAfter place shown code)), .acknowledged]
        else [.acknowledged] := by
  simp only [pressAt, redraw]
  cases ((k.sessions.get place shown).1.press code).2 with
  | false => exact ⟨rfl, rfl⟩
  | true =>
    refine ⟨?_, rfl⟩
    split
    · rfl
    · rfl

theorem press_of_code {k : Keypads} {data shown : List Char} {place : Place}
    (hcode : Key.codeOfData data ≠ []) :
    k.press data (some (place, shown)) none =
      k.pressAt place shown (Key.codeOfData data) none := by
  simp [press, hcode]

theorem ring_unrefused (k : Keypads) (alarm : Alarm) :
    ((k.ring alarm none).2.sessions = k.sessions ∧ (k.ring alarm none).1 = []) ∨
      ∃ state, k.sessions.peek alarm.place = some state ∧
        (k.ring alarm none).2.sessions = k.sessions.update alarm.place state.clear.1 ∧
        (k.ring alarm none).1 =
          if state.clear.2 then [.edited alarm.place (render state.clear.1)] else [] := by
  simp only [ring, redraw]
  split
  · exact .inl ⟨rfl, rfl⟩
  · next state hstate =>
    split
    · exact .inl ⟨rfl, rfl⟩
    · refine .inr ⟨state, hstate, ?_⟩
      cases state.clear.2 with
      | false => exact ⟨rfl, rfl⟩
      | true => exact ⟨rfl, rfl⟩

namespace Scene

variable {s s' : Scene} {place : Place} {state : Keypad} {changed : Bool}

/-- Of the keypads that are stored, only the one at a place has got another state, and it has been
drawn if it has changed. -/
structure Updates (s s' : Scene) (place : Place) (state : Keypad) (changed : Bool) : Prop where
  stored : ∀ q τ, s'.keypads.sessions.peek q = some τ →
    (q = place ∧ τ = state) ∨ (q ≠ place ∧ s.keypads.sessions.peek q = some τ)
  capacity : s'.keypads.sessions.capacity = s.keypads.sessions.capacity
  drawn : s'.screens =
    if changed then Function.update s.screens place (some (render state)) else s.screens

theorem Updates.screens_self (h : Updates s s' place state changed)
    (hkept : changed = false → s.screens place = some (render state)) :
    s'.screens place = some (render state) := by
  rw [h.drawn]
  cases changed with
  | false => exact hkept rfl
  | true => exact Function.update_self ..

theorem Updates.screens_of_ne (h : Updates s s' place state changed) {q : Place} (hq : q ≠ place) :
    s'.screens q = s.screens q := by
  rw [h.drawn]
  cases changed with
  | false => rfl
  | true => exact Function.update_of_ne hq ..

theorem Updates.inSync (h : Updates s s' place state changed) (hsync : s.InSync)
    (hkept : changed = false → s.screens place = some (render state)) : s'.InSync := by
  intro q τ hτ
  rcases h.stored q τ hτ with ⟨rfl, rfl⟩ | ⟨hq, hpeek⟩
  · exact h.screens_self hkept
  · rw [h.screens_of_ne hq]
    exact hsync q τ hpeek

theorem Updates.stored_legible (h : Updates s s' place state changed) (hs : s.Regular)
    (hstate : state.Legible) : ∀ q τ, s'.keypads.sessions.peek q = some τ → τ.Legible := by
  intro q τ hτ
  rcases h.stored q τ hτ with ⟨_, rfl⟩ | ⟨_, hpeek⟩
  · exact hstate
  · exact hs.stored q τ hpeek

theorem Updates.shown_legible (h : Updates s s' place state changed) (hs : s.Regular)
    (hstate : state.Legible) :
    ∀ q m, s'.screens q = some m → ∃ σ : Keypad, σ.Legible ∧ m = render σ := by
  intro q m hm
  rw [h.drawn] at hm
  split at hm
  · by_cases hq : q = place
    · rw [hq, Function.update_self, Option.some.injEq] at hm
      exact ⟨state, hstate, hm.symm⟩
    · rw [Function.update_of_ne hq] at hm
      exact hs.shown q m hm
  · exact hs.shown q m hm

theorem updates_opened (hs : s.Regular) (hnone : s.keypads.sessions.peek place = none) :
    Updates s (s.act (.opened place)) place (.fresh s.keypads.sessions.limits) true where
  stored := by
    intro q τ hτ
    have hfresh : (s.keypads.sessions.get place []).1 = .fresh s.keypads.sessions.limits :=
      Sessions.get_of_peek_none hnone
    rw [← hfresh]
    exact Sessions.peek_get hs.valid hτ
  capacity := rfl
  drawn := rfl

theorem updates_pressed (hs : s.Regular) {data : List Char} (shown : List Char)
    (hcode : Key.codeOfData data ≠ []) :
    Updates s (s.act (.pressed data (some (place, shown)) none)) place
      (s.keypads.stateAfter place shown (Key.codeOfData data))
      ((s.keypads.sessions.get place shown).1.press (Key.codeOfData data)).2 := by
  obtain ⟨hsessions, heffects⟩ :=
    pressAt_unrefused s.keypads place shown (Key.codeOfData data)
  constructor
  · intro q τ hτ
    simp only [act, Keypads.act, press_of_code hcode, hsessions] at hτ
    rcases Sessions.peek_of_update hτ with hself | ⟨hq, hpeek⟩
    · exact .inl hself
    · exact .inr ((Sessions.peek_get hs.valid hpeek).resolve_left fun h => hq h.1)
  · simp only [act, Keypads.act, press_of_code hcode, hsessions]
    rfl
  · simp only [act, Keypads.act, press_of_code hcode, heffects]
    split
    · rfl
    · rfl

theorem updates_rang (alarm : Alarm) (k : Keypads) (hk : k.sessions = s.keypads.sessions) :
    ((k.ring alarm none).2.sessions = s.keypads.sessions ∧ (k.ring alarm none).1 = []) ∨
      ∃ σ, s.keypads.sessions.peek alarm.place = some σ ∧
        Updates s ⟨(k.ring alarm none).2, (k.ring alarm none).1.foldl Keypads.drawn s.screens⟩
          alarm.place σ.clear.1 σ.clear.2 := by
  rcases ring_unrefused k alarm with ⟨hsame, hnone⟩ | ⟨σ, hσ, hsessions, heffects⟩
  · exact .inl ⟨hsame.trans hk, hnone⟩
  · rw [hk] at hσ hsessions
    refine .inr ⟨σ, hσ, ?_, ?_, ?_⟩
    · intro q τ hτ
      simp only [hsessions] at hτ
      exact Sessions.peek_of_update hτ
    · simp only [hsessions]
      rfl
    · simp only [heffects]
      split
      · rfl
      · rfl

/-! ### One act -/

theorem Regular.of_updates (hs : s.Regular) {a : Act} (h : Updates s (s.act a) place state changed)
    (hstate : state.Legible) : (s.act a).Regular := by
  obtain ⟨hvalid, hlimit⟩ := valid_act hs.valid hs.limit_pos a
  have hlimit' : (s.act a).keypads.sessions.limits = s.keypads.sessions.limits := hlimit
  exact ⟨hvalid, by rw [hlimit']; exact hs.limit_pos, by rw [h.capacity]; exact hs.capacity_pos,
    h.stored_legible hs hstate, h.shown_legible hs hstate⟩

theorem peek_of_unused (hsync : s.InSync) (hunused : s.screens place = none) :
    s.keypads.sessions.peek place = none := by
  cases hpeek : s.keypads.sessions.peek place with
  | none => rfl
  | some σ =>
    have hshown := hsync place σ hpeek
    rw [hunused] at hshown
    cases hshown

theorem exists_visible (hs : s.Regular) {shown : List Char}
    (hvisible : s.screens place = some ⟨Markup.code shown, true, some .keypad⟩) :
    ∃ τ : Keypad, τ.Legible ∧ shown = τ.display := by
  obtain ⟨τ, hτ, hmessage⟩ := hs.shown place _ hvisible
  exact ⟨τ, hτ, Markup.code_injective (congrArg Message.text hmessage)⟩

theorem get_of_error (hs : s.Regular) {shown : List Char}
    (hvisible : s.screens place = some ⟨Markup.code shown, true, some .keypad⟩)
    (herror : IsErrorText shown) (hnone : s.keypads.sessions.peek place = none) :
    (s.keypads.sessions.get place shown).1 = .fresh s.keypads.sessions.limits := by
  obtain ⟨τ, hτ, rfl⟩ := exists_visible hs hvisible
  rw [Keypad.isErrorText_display_iff hτ] at herror
  rw [Sessions.get_of_peek_none hnone, Keypad.ofDisplay_of_failure hτ herror]

/-- A press finds the keypad that is shown, or a new one in place of an error. -/
theorem get_of_visible (hs : s.Regular) (hsync : s.InSync) {shown : List Char}
    (hvisible : s.screens place = some ⟨Markup.code shown, true, some .keypad⟩) :
    (s.keypads.sessions.get place shown).1.Legible ∧
      ((s.keypads.sessions.get place shown).1.display = shown ∨
        IsErrorText shown ∧ s.keypads.sessions.peek place = none) := by
  obtain ⟨τ, hτ, rfl⟩ := exists_visible hs hvisible
  cases hpeek : s.keypads.sessions.peek place with
  | some σ =>
    rw [Sessions.get_of_peek hpeek]
    have hsame : render σ = render τ :=
      Option.some.inj ((hsync place σ hpeek).symm.trans hvisible)
    exact ⟨hs.stored place σ hpeek, .inl (render_eq_iff.mp hsame)⟩
  | none =>
    rw [Sessions.get_of_peek_none hpeek]
    refine ⟨Keypad.legible_ofDisplay hτ _, ?_⟩
    by_cases hphase : τ.phase = .failure
    · exact .inr ⟨(Keypad.isErrorText_display_iff hτ).mpr hphase, rfl⟩
    · left
      rw [Keypad.ofDisplay_of_line hτ hphase, Keypad.display_of_line τ.display_ne_nil]

theorem act_of_no_code {data : List Char} (hcode : Key.codeOfData data = [])
    (source : Option (Place × List Char)) : s.act (.pressed data source none) = s := by
  cases source with
  | none => rfl
  | some source => simp [act, Keypads.act, press, hcode, Keypads.drawn]

theorem act_of_alarm {index : Nat} {alarm : Alarm} (h : s.keypads.alarms[index]? = some alarm) :
    ∃ k : Keypads, k.sessions = s.keypads.sessions ∧
      s.act (.rang index none) =
        ⟨(k.ring alarm none).2, (k.ring alarm none).1.foldl Keypads.drawn s.screens⟩ := by
  refine ⟨{ s.keypads with alarms := s.keypads.alarms.eraseIdx index }, rfl, ?_⟩
  simp only [act, Keypads.act, ringAt, h]

theorem display_of_pressed (hs : s.Regular) {shown code : List Char}
    (h : ((s.keypads.sessions.get place shown).1.press code).2 = false) :
    (s.keypads.stateAfter place shown code).display =
      (s.keypads.sessions.get place shown).1.display := by
  have hlimit : 0 < (s.keypads.sessions.get place shown).1.limits.length := by
    rw [Sessions.get_limits hs.valid]
    exact hs.limit_pos
  exact Keypad.display_of_step (Keypad.step_press hlimit code) h

/-- An act keeps what is stored and what is shown, or it gives one keypad another state and shows
it. -/
theorem act_cases (hs : s.Regular) (hsync : s.InSync) {a : Act} (ha : s.Admits a) :
    ((s.act a).keypads.sessions = s.keypads.sessions ∧ (s.act a).screens = s.screens) ∨
      ∃ place state changed, Updates s (s.act a) place state changed ∧ state.Legible ∧
        ((changed = false → s.screens place = some (render state)) ∨ s.LeavesError a) := by
  cases ha with
  | opened hunused =>
    exact .inr ⟨_, _, _, updates_opened hs (peek_of_unused hsync hunused), Keypad.legible_fresh _,
      .inl fun h => by cases h⟩
  | @pressed data shown place hvisible =>
    by_cases hcode : Key.codeOfData data = []
    · rw [act_of_no_code hcode]
      exact .inl ⟨rfl, rfl⟩
    · obtain ⟨hlegible, hfound⟩ := get_of_visible hs hsync hvisible
      refine .inr ⟨_, _, _, updates_pressed hs shown hcode, Keypad.legible_press hlegible _, ?_⟩
      rcases hfound with hshown | ⟨herror, hnone⟩
      · left
        intro h
        rw [hvisible, render, display_of_pressed hs h, hshown]
      · -- The error is found as a new keypad, so it stays if the key has no effect on that.
        cases hpress : ((Keypad.fresh s.keypads.sessions.limits).press (Key.codeOfData data)).2 with
        | false => exact .inr ⟨hcode, herror, hnone, hpress⟩
        | true =>
          left
          intro h
          rw [get_of_error hs hvisible herror hnone, hpress] at h
          cases h
  | pressedNowhere => exact .inl ⟨rfl, rfl⟩
  | @rang index =>
    cases halarm : s.keypads.alarms[index]? with
    | none =>
      left
      simp [act, Keypads.act, ringAt, halarm]
    | some alarm =>
      obtain ⟨k, hk, hact⟩ := act_of_alarm halarm
      rw [hact]
      rcases updates_rang alarm k hk with ⟨hsame, hnone⟩ | ⟨σ, hσ, hupdates⟩
      · rw [hnone]
        exact .inl ⟨hsame, rfl⟩
      · refine .inr ⟨_, _, _, hupdates, σ.legible_clear, .inl fun h => ?_⟩
        rw [hsync _ σ hσ, Option.some.injEq, render_eq_iff]
        exact (Keypad.display_of_step σ.step_clear h).symm

theorem not_inSync_of_leavesError (hs : s.Regular) {a : Act} (ha : s.Admits a)
    (h : s.LeavesError a) : ¬ (s.act a).InSync := by
  cases ha with
  | opened => cases h
  | pressedNowhere => cases h
  | rang => cases h
  | @pressed data shown place hvisible =>
    obtain ⟨hcode, herror, hnone, hpress⟩ := h
    have hfresh := get_of_error hs hvisible herror hnone
    have hunchanged : ((s.keypads.sessions.get place shown).1.press (Key.codeOfData data)).2 =
        false := by
      rw [hfresh]
      exact hpress
    intro hsync
    have hstored : (s.act (.pressed data (some (place, shown)) none)).keypads.sessions.peek place =
        some (s.keypads.stateAfter place shown (Key.codeOfData data)) := by
      simp only [act, Keypads.act, press_of_code hcode,
        (pressAt_unrefused s.keypads place shown (Key.codeOfData data)).1]
      rw [Sessions.peek_update_self, Sessions.peek_get_self hs.capacity_pos]
      rfl
    have hupdates : Updates s _ place _ _ := updates_pressed hs shown hcode
    have hdrawn := hupdates.drawn
    rw [hunchanged] at hdrawn
    -- The keypad that is stored now shows a blank line, but nothing has been drawn.
    have hshown := hsync place _ hstored
    rw [hdrawn] at hshown
    have hdisplay : shown = (s.keypads.stateAfter place shown (Key.codeOfData data)).display :=
      Markup.code_injective (congrArg Message.text (Option.some.inj (hvisible.symm.trans hshown)))
    rw [display_of_pressed hs hunchanged, hfresh] at hdisplay
    rw [hdisplay] at herror
    exact Keypad.unbroken_blankLine.not_isErrorText herror

theorem regular_act (hs : s.Regular) (hsync : s.InSync) {a : Act} (ha : s.Admits a) :
    (s.act a).Regular := by
  rcases act_cases hs hsync ha with ⟨hsessions, hscreens⟩ | ⟨_, _, _, hupdates, hlegible, _⟩
  · exact ⟨by rw [hsessions]; exact hs.valid, by rw [hsessions]; exact hs.limit_pos,
      by rw [hsessions]; exact hs.capacity_pos, by rw [hsessions]; exact hs.stored,
      by rw [hscreens]; exact hs.shown⟩
  · exact hs.of_updates hupdates hlegible

theorem inSync_act_iff (hs : s.Regular) (hsync : s.InSync) {a : Act} (ha : s.Admits a) :
    (s.act a).InSync ↔ ¬ s.LeavesError a := by
  constructor
  · exact fun h herror => not_inSync_of_leavesError hs ha herror h
  · intro hnever
    rcases act_cases hs hsync ha with ⟨hsessions, hscreens⟩ | ⟨_, _, _, hupdates, _, hkept⟩
    · intro place σ hσ
      rw [hsessions] at hσ
      rw [hscreens]
      exact hsync place σ hσ
    · exact hupdates.inSync hsync (hkept.resolve_right hnever)

/-! ### Runs -/

theorem always_inSync_iff (hs : s.Regular) (hsync : s.InSync) {acts : List Act}
    (h : s.Always Admits acts) :
    s.Always (fun s a => (s.act a).InSync) acts ↔ s.Always (fun s a => ¬ s.LeavesError a) acts := by
  induction acts generalizing s with
  | nil => exact Iff.rfl
  | cons a acts ih =>
    obtain ⟨ha, h⟩ := h
    have hact := inSync_act_iff hs hsync ha
    constructor
    · rintro ⟨hsync', hrest⟩
      exact ⟨hact.mp hsync', (ih (regular_act hs hsync ha) hsync' h).mp hrest⟩
    · rintro ⟨hnever, hrest⟩
      have hsync' := hact.mpr hnever
      exact ⟨hsync', (ih (regular_act hs hsync ha) hsync' h).mpr hrest⟩

/-- Nothing is stored, and there may be messages of earlier keypads. -/
def start (capacity locks : Nat) (limits : Limits) (screens : Place → Option Message) : Scene :=
  ⟨Keypads.empty capacity locks limits, screens⟩

theorem regular_start {capacity : Nat} {limits : Limits} (hcapacity : 0 < capacity)
    (hlimit : 0 < limits.length) (locks : Nat) {screens : Place → Option Message}
    (hscreens : ∀ place m, screens place = some m → ∃ σ : Keypad, σ.Legible ∧ m = render σ) :
    (start capacity locks limits screens).Regular where
  valid := Sessions.valid_empty capacity limits
  limit_pos := hlimit
  capacity_pos := hcapacity
  stored := fun place σ hσ => by cases hσ
  shown := hscreens

/-- While no edit fails and every press comes with what its message shows, all keypads that are
stored are shown as they are after every step, if and only if no key is pressed on an error without
a stored keypad that would change nothing on a new one. -/
theorem stored_shown_iff {capacity locks : Nat} {limits : Limits} {screens : Place → Option Message}
    (hcapacity : 0 < capacity) (hlimit : 0 < limits.length)
    (hscreens : ∀ place m, screens place = some m → ∃ σ : Keypad, σ.Legible ∧ m = render σ)
    {acts : List Act} (h : (start capacity locks limits screens).Always Admits acts) :
    (start capacity locks limits screens).Always (fun s a => (s.act a).InSync) acts ↔
      (start capacity locks limits screens).Always (fun s a => ¬ s.LeavesError a) acts :=
  always_inSync_iff (regular_start hcapacity hlimit locks hscreens)
    (fun place σ hσ => by cases hσ) h

/-- There is room for one keypad. The error of the first one is let go of, and a digit is typed
where it is shown. -/
theorem stored_shown_iff_of_digit :
    (start 1 1 .standard fun _ => none).Always (fun s a => (s.act a).InSync)
      [.opened ⟨1, 10⟩, .pressed "kp:(".toList (some (⟨1, 10⟩, ['0'])) none,
        .pressed "kp:=".toList (some (⟨1, 10⟩, ['('])) none, .opened ⟨1, 11⟩,
        .pressed "kp:7".toList (some (⟨1, 10⟩, "Error: Unbalanced parentheses".toList)) none] := by
  refine (stored_shown_iff (by decide) (by decide) (fun _ _ h => by cases h) ?_).mpr ?_
  · exact ⟨.opened rfl, .pressed (by decide +kernel), .pressed (by decide +kernel),
      .opened (by decide +kernel), .pressed (by decide +kernel), trivial⟩
  · exact ⟨by decide, by decide +kernel, by decide +kernel, by decide, by decide +kernel, trivial⟩

/-- With the key that clears in place of the digit, the error is left standing. -/
theorem error_left_standing :
    let s := start 1 1 .standard fun _ => none
    let acts := [.opened ⟨1, 10⟩, .pressed "kp:(".toList (some (⟨1, 10⟩, ['0'])) none,
      .pressed "kp:=".toList (some (⟨1, 10⟩, ['('])) none, .opened ⟨1, 11⟩,
      .pressed "kp:C".toList (some (⟨1, 10⟩, "Error: Unbalanced parentheses".toList)) none]
    s.Always Admits acts ∧
      (s.run acts).keypads.sessions.peek ⟨1, 10⟩ = some ⟨['0'], .typing, 0, .standard⟩ ∧
      (s.run acts).screens ⟨1, 10⟩ =
        some ⟨Markup.code "Error: Unbalanced parentheses".toList, true, some .keypad⟩ ∧
      ¬ (s.run acts).InSync := by
  intro s acts
  have hstored : (s.run acts).keypads.sessions.peek ⟨1, 10⟩ =
      some ⟨['0'], .typing, 0, .standard⟩ := by
    decide +kernel
  have hshown : (s.run acts).screens ⟨1, 10⟩ =
      some ⟨Markup.code "Error: Unbalanced parentheses".toList, true, some .keypad⟩ := by
    decide +kernel
  refine ⟨⟨.opened rfl, .pressed (by decide +kernel), .pressed (by decide +kernel),
    .opened (by decide +kernel), .pressed (by decide +kernel), trivial⟩, hstored, hshown, ?_⟩
  intro hsync
  have hsame := (hsync _ _ hstored).symm.trans hshown
  exact absurd hsame (by decide +kernel)

end Scene

end Chat.Keypads

end PocketCalculator
