import Mathlib.Data.Finset.Card
import Mathlib.Data.Finset.Image
import PocketCalculator.Proofs.Chat.Runs

/-!
# Keypads are kept apart

What is sent for a keypad, and the states that it goes through, depend on what is done to this
keypad alone, as long as there is room for all keypads that are used (`log_eq_log_without_others`).
Two collections of keypads agree at a place if they have the same state and the same alarms there.
What is done elsewhere keeps a collection in agreement with itself, and what is done at the place
keeps two collections in agreement.
-/

namespace PocketCalculator

/-! ### Room in a registry -/

namespace Registry

variable {κ α : Type} [DecidableEq κ] {r : Registry κ α} {keys : Finset κ} {k k' : κ}

/-- The registered keys are among these, each of them once. -/
structure Within (r : Registry κ α) (keys : Finset κ) : Prop where
  distinct : r.Distinct
  mem : ∀ k ∈ r.keys, k ∈ keys

theorem Within.size_le (h : r.Within keys) : r.size ≤ keys.card := by
  have hcard : r.keys.toFinset.card = r.size := by
    rw [List.toFinset_card_of_nodup h.distinct]
    exact List.length_map ..
  rw [← hcard]
  exact Finset.card_le_card fun k hk => h.mem k (List.mem_toFinset.mp hk)

theorem Within.erase (h : r.Within keys) (k : κ) : (r.erase k).Within keys where
  distinct := h.distinct.erase k
  mem := fun k' hk' => by
    rw [keys_erase] at hk'
    exact h.mem k' (List.mem_filter.mp hk').1

theorem Within.replace (h : r.Within keys) (k : κ) (v : α) : (r.replace k v).Within keys where
  distinct := h.distinct.replace k v
  mem := fun k' hk' => by
    rw [keys_replace] at hk'
    exact h.mem k' hk'

theorem Within.put (h : r.Within keys) (hk : k ∈ keys) (v : α) : (r.put k v).Within keys where
  distinct := h.distinct.put k v
  mem := fun k' hk' => by
    rw [keys_put] at hk'
    rcases List.mem_append.mp hk' with hk' | hk'
    · exact h.mem k' (List.mem_filter.mp hk').1
    · rw [List.mem_singleton.mp hk']
      exact hk

omit [DecidableEq κ] in
theorem trimTo_of_size_le {capacity : Nat} (h : r.size ≤ capacity) : r.trimTo capacity = r :=
  if_neg (Nat.not_lt.mpr h)

end Registry

namespace Sessions

variable {κ : Type} [DecidableEq κ] {s s' : Sessions κ} {keys : Finset κ} {key key' : κ}
  {shown : List Char}

/-- The keypads that are stored are among these, and there is room for all of these. -/
structure Roomy (s : Sessions κ) (keys : Finset κ) : Prop where
  within : s.states.Within keys
  room : keys.card ≤ s.capacity

/-- While there is room nothing is let go of. -/
theorem Roomy.get_states (h : s.Roomy keys) (hkey : key ∈ keys) (shown : List Char) :
    (s.get key shown).2.states = s.states.put key (s.get key shown).1 :=
  Registry.trimTo_of_size_le ((h.within.put hkey _).size_le.trans h.room)

theorem Roomy.get (h : s.Roomy keys) (hkey : key ∈ keys) (shown : List Char) :
    (s.get key shown).2.Roomy keys where
  within := by
    rw [h.get_states hkey]
    exact h.within.put hkey _
  room := h.room

theorem Roomy.update (h : s.Roomy keys) (key : κ) (state : Keypad) :
    (s.update key state).Roomy keys :=
  ⟨h.within.replace key state, h.room⟩

theorem Roomy.drop (h : s.Roomy keys) (key : κ) : (s.drop key).Roomy keys :=
  ⟨h.within.erase key, h.room⟩

theorem Roomy.peek_get_self (h : s.Roomy keys) (hkey : key ∈ keys) (shown : List Char) :
    (s.get key shown).2.peek key = some (s.get key shown).1 := by
  unfold peek
  rw [h.get_states hkey]
  exact Registry.get?_put_self ..

theorem Roomy.peek_get_of_ne (h : s.Roomy keys) (hkey : key ∈ keys) (hne : key' ≠ key)
    (shown : List Char) : (s.get key shown).2.peek key' = s.peek key' := by
  unfold peek
  rw [h.get_states hkey]
  exact Registry.get?_put_of_ne hne

/-- The state that is got depends on the one that is stored and on the limit of new ones. -/
theorem get_congr (hpeek : s.peek key = s'.peek key) (hlimit : s.limits = s'.limits)
    (shown : List Char) : (s.get key shown).1 = (s'.get key shown).1 := by
  show (s.states.get? key).getD _ = (s'.states.get? key).getD _
  rw [show s.states.get? key = s'.states.get? key from hpeek, hlimit]

end Sessions

namespace Chat

/-- What is seen of a keypad: something is done for it, or it has a state, or none. -/
inductive Sight where
  | effect (e : Effect)
  | state (state : Option Keypad)

namespace Keypads

variable {k k' : Keypads} {places : Finset Place} {place q : Place} {alarm : Alarm}
  {refusal : Option (List Char)} {shown code : List Char}

/-! ### Runs in which alarms are named -/

/-- What can happen next, where an alarm is named as it was set. One that is not set does not go
off. -/
inductive Deed where
  | opened (place : Place)
  | pressed (data : List Char) (source : Option (Place × List Char))
      (refusal : Option (List Char))
  | rang (alarm : Alarm) (refusal : Option (List Char))

/-- The deed as an act: of the alarms with this name the first goes off. -/
def Deed.toAct (k : Keypads) : Deed → Act
  | .opened place => .opened place
  | .pressed data source refusal => .pressed data source refusal
  | .rang alarm refusal => .rang (k.alarms.idxOf alarm) refusal

def perform (k : Keypads) (d : Deed) : List Effect × Keypads := k.act (d.toAct k)

/-- The keypad that is opened or pressed. Alarms go off by themselves. -/
def Deed.place? : Deed → Option Place
  | .opened place => some place
  | .pressed _ source _ => source.map Prod.fst
  | .rang _ _ => none

/-- Another keypad than the one at the place is opened or pressed. -/
def Deed.isElsewhere (place : Place) (d : Deed) : Bool := d.place?.any (· ≠ place)

/-- The keypads that are opened or pressed. -/
def touched (deeds : List Deed) : Finset Place := (deeds.filterMap Deed.place?).toFinset

/-- An effect of the deed that is seen at the place: what is sent or edited there, and the
acknowledgement of everything that is not done to another keypad. -/
def Deed.shows (place : Place) (d : Deed) : Effect → Bool
  | .sent q _ => q = place
  | .edited q _ => q = place
  | .acknowledged => !d.isElsewhere place

/-- What is seen at a place of a deed: all its effects there, and the state afterwards, unless the
deed is done to another keypad and leaves the state as it is. -/
def sights (k : Keypads) (place : Place) (d : Deed) : List Sight :=
  let (effects, k') := k.perform d
  (effects.filter (d.shows place)).map .effect ++
    if d.isElsewhere place && k'.sessions.peek place = k.sessions.peek place then []
    else [.state (k'.sessions.peek place)]

/-- What is seen at a place while all these things are done, to this keypad and to others. -/
def log (k : Keypads) (place : Place) : List Deed → List Sight
  | [] => []
  | d :: deeds => k.sights place d ++ (k.perform d).2.log place deeds

theorem perform_rang (k : Keypads) (alarm : Alarm) (refusal : Option (List Char)) :
    k.perform (.rang alarm refusal) =
      if alarm ∈ k.alarms then ({ k with alarms := k.alarms.erase alarm }).ring alarm refusal
      else ([], k) := by
  simp only [perform, act, Deed.toAct, ringAt]
  by_cases h : alarm ∈ k.alarms
  · have hindex := List.idxOf_lt_length_of_mem h
    rw [if_pos h, List.getElem?_eq_getElem hindex, List.getElem_idxOf hindex,
      List.erase_eq_eraseIdx_of_idxOf rfl]
  · rw [if_neg h, List.idxOf_eq_length h, List.getElem?_eq_none (Nat.le_refl _)]

/-! ### Room for all keypads -/

theorem roomy_of_drop {s s' : Sessions Place} (h : s' = s ∨ s' = s.drop place)
    (hs : s.Roomy places) : s'.Roomy places := by
  rcases h with rfl | rfl
  · exact hs
  · exact hs.drop place

theorem roomy_ring (h : k.sessions.Roomy places) (alarm : Alarm) (refusal : Option (List Char)) :
    (k.ring alarm refusal).2.sessions.Roomy places := by
  rcases ring_sessions k alarm refusal with ⟨hsame, _⟩ | ⟨state, s, _, _, rfl, hs⟩
  · rw [hsame]
    exact h
  · exact roomy_of_drop hs (h.update alarm.place _)

theorem roomy_perform (h : k.sessions.Roomy places) {d : Deed}
    (hd : ∀ place, d.place? = some place → place ∈ places) :
    (k.perform d).2.sessions.Roomy places := by
  cases d with
  | opened place => exact h.get (hd place rfl) []
  | pressed data source refusal =>
    show (k.press data source refusal).2.sessions.Roomy places
    rcases press_cases k data source refusal with hsame | ⟨place, shown, rfl, hpress⟩
    · rw [hsame]
      exact h
    · rw [hpress]
      obtain ⟨s, rfl, hs⟩ := pressAt_sessions k place shown (Key.codeOfData data) refusal
      exact roomy_of_drop hs ((h.get (hd place rfl) shown).update place _)
  | rang alarm refusal =>
    rw [perform_rang]
    split
    · exact roomy_ring (k := { k with alarms := k.alarms.erase alarm }) h alarm refusal
    · exact h

/-! ### Agreement at a place -/

/-- The same state and the same alarms at the place, and the same limit of new states. -/
structure Agree (place : Place) (k k' : Keypads) : Prop where
  state : k.sessions.peek place = k'.sessions.peek place
  limits : k.sessions.limits = k'.sessions.limits
  alarms : k.alarms.filter (·.place = place) = k'.alarms.filter (·.place = place)

theorem Agree.refl (place : Place) (k : Keypads) : Agree place k k := ⟨rfl, rfl, rfl⟩

theorem Agree.symm (h : Agree place k k') : Agree place k' k :=
  ⟨h.state.symm, h.limits.symm, h.alarms.symm⟩

theorem Agree.trans {k'' : Keypads} (h : Agree place k k') (h' : Agree place k' k'') :
    Agree place k k'' :=
  ⟨h.state.trans h'.state, h.limits.trans h'.limits, h.alarms.trans h'.alarms⟩

theorem Agree.mem_alarms_iff (h : Agree place k k') (halarm : alarm.place = place) :
    alarm ∈ k.alarms ↔ alarm ∈ k'.alarms := by
  have hfilter : ∀ {k : Keypads}, alarm ∈ k.alarms ↔
      alarm ∈ k.alarms.filter (·.place = place) := by
    intro k
    rw [List.mem_filter, and_iff_left (decide_eq_true halarm)]
  rw [hfilter, hfilter, h.alarms]

/-! ### What is done elsewhere -/

theorem peek_of_drop_of_ne {s s' : Sessions Place} (h : s' = s ∨ s' = s.drop q)
    (hne : place ≠ q) : s'.peek place = s.peek place := by
  rcases h with rfl | rfl
  · rfl
  · exact Sessions.peek_drop_of_ne hne

theorem limits_of_drop {s s' : Sessions Place} (h : s' = s ∨ s' = s.drop q) :
    s'.limits = s.limits := by
  rcases h with rfl | rfl
  · rfl
  · rfl

theorem limits_pressAt (k : Keypads) (place : Place) (shown code : List Char)
    (refusal : Option (List Char)) :
    (k.pressAt place shown code refusal).2.sessions.limits = k.sessions.limits := by
  obtain ⟨s, rfl, hs⟩ := pressAt_sessions k place shown code refusal
  rw [limits_of_drop hs]
  rfl

theorem limits_ring (k : Keypads) (alarm : Alarm) (refusal : Option (List Char)) :
    (k.ring alarm refusal).2.sessions.limits = k.sessions.limits := by
  rcases ring_sessions k alarm refusal with ⟨hsame, _⟩ | ⟨state, s, _, _, rfl, hs⟩
  · rw [hsame]
  · rw [limits_of_drop hs]
    rfl

theorem agree_pressAt_of_ne (h : k.sessions.Roomy places) (hq : q ∈ places) (hne : place ≠ q)
    (shown code : List Char) (refusal : Option (List Char)) :
    Agree place (k.pressAt q shown code refusal).2 k where
  state := by
    obtain ⟨s, rfl, hs⟩ := pressAt_sessions k q shown code refusal
    rw [peek_of_drop_of_ne hs hne, Sessions.peek_update_of_ne hne, h.peek_get_of_ne hq hne]
  limits := limits_pressAt k q shown code refusal
  alarms := by
    rw [alarms_pressAt]
    split
    · simp [List.filter_append, hne.symm]
    · rfl

theorem agree_ring_of_ne (hne : place ≠ alarm.place) (refusal : Option (List Char)) :
    Agree place (k.ring alarm refusal).2 k where
  state := by
    rcases ring_sessions k alarm refusal with ⟨hsame, _⟩ | ⟨state, s, _, _, rfl, hs⟩
    · rw [hsame]
    · rw [peek_of_drop_of_ne hs hne, Sessions.peek_update_of_ne hne]
  limits := limits_ring k alarm refusal
  alarms := by rw [alarms_ring]

/-- Opening or pressing another keypad changes nothing at the place. -/
theorem agree_of_isElsewhere (h : k.sessions.Roomy places) {d : Deed}
    (hd : ∀ place, d.place? = some place → place ∈ places) (helse : d.isElsewhere place = true) :
    Agree place (k.perform d).2 k := by
  obtain ⟨q, hq, hne⟩ := (Option.any_eq_true _ _).mp helse
  have hne : place ≠ q := fun hsame => (of_decide_eq_true hne) hsame.symm
  have hmem := hd q hq
  cases d with
  | opened place' =>
    cases hq
    exact ⟨h.peek_get_of_ne hmem hne [], rfl, rfl⟩
  | pressed data source refusal =>
    show Agree place (k.press data source refusal).2 k
    rcases press_cases k data source refusal with hsame | ⟨place', shown, rfl, hpress⟩
    · rw [hsame]
      exact .refl place k
    · cases hq
      rw [hpress]
      exact agree_pressAt_of_ne h hmem hne shown _ refusal
  | rang alarm refusal => cases hq

theorem effect_of_pressAt {e : Effect} (h : e ∈ (k.pressAt q shown code refusal).1) :
    (∃ m, e = .edited q m) ∨ e = .acknowledged := by
  simp only [pressAt] at h
  rcases List.mem_append.mp h with h | h
  · split at h
    · exact .inl ⟨_, List.mem_singleton.mp h⟩
    · cases h
  · exact .inr (List.mem_singleton.mp h)

/-- What is done to a keypad has its effects there. -/
theorem effect_of_perform {d : Deed} (hq : d.place? = some q) {e : Effect}
    (h : e ∈ (k.perform d).1) :
    (∃ m, e = .sent q m ∨ e = .edited q m) ∨ e = .acknowledged := by
  cases d with
  | opened place =>
    cases hq
    exact .inl ⟨_, .inl (List.mem_singleton.mp h)⟩
  | pressed data source refusal =>
    obtain ⟨⟨place, shown⟩, rfl, rfl⟩ := Option.map_eq_some_iff.mp hq
    change e ∈ (k.press data (some (place, shown)) refusal).1 at h
    simp only [press] at h
    split at h
    · exact .inr (List.mem_singleton.mp h)
    · rcases effect_of_pressAt h with ⟨m, hm⟩ | hm
      · exact .inl ⟨m, .inr hm⟩
      · exact .inr hm
  | rang alarm refusal => cases hq

/-- Opening or pressing another keypad is not seen at the place. -/
theorem sights_of_isElsewhere (h : k.sessions.Roomy places) {d : Deed}
    (hd : ∀ place, d.place? = some place → place ∈ places) (helse : d.isElsewhere place = true) :
    k.sights place d = [] := by
  have hstate := (agree_of_isElsewhere h hd helse).state
  obtain ⟨q, hq, hne⟩ := (Option.any_eq_true _ _).mp helse
  have hunseen : (k.perform d).1.filter (d.shows place) = [] := by
    refine List.filter_eq_nil_iff.mpr fun e he => ?_
    have hne : q ≠ place := of_decide_eq_true hne
    rcases effect_of_perform hq he with ⟨m, rfl | rfl⟩ | rfl
    · simpa [Deed.shows] using hne
    · simpa [Deed.shows] using hne
    · simp [Deed.shows, helse]
  simp [sights, hunseen, helse, hstate]

/-! ### What is done at the place -/

theorem redraw_congr (h : k.sessions.peek place = k'.sessions.peek place) (state : Keypad)
    (refusal : Option (List Char)) (changed : Bool) :
    (if changed then k.redraw place state refusal else ([], k)).1 =
        (if changed then k'.redraw place state refusal else ([], k')).1 ∧
      (if changed then k.redraw place state refusal else ([], k)).2.sessions.peek place =
        (if changed then k'.redraw place state refusal else ([], k')).2.sessions.peek place := by
  cases changed with
  | false => exact ⟨rfl, h⟩
  | true =>
    refine ⟨rfl, ?_⟩
    cases refusal with
    | none => exact h
    | some reason =>
      by_cases hgone : isGone reason = true
      · simp only [redraw, if_pos hgone]
        exact (Sessions.peek_drop_self _ place).trans (Sessions.peek_drop_self _ place).symm
      · simp only [redraw, if_neg hgone]
        exact h

theorem pressAt_eq_redraw (k : Keypads) (place : Place) (shown code : List Char)
    (refusal : Option (List Char)) :
    let drawn := if ((k.sessions.get place shown).1.press code).2 then
        (k.pressed place shown code).redraw place (k.stateAfter place shown code) refusal
      else ([], k.pressed place shown code)
    (k.pressAt place shown code refusal).1 = drawn.1 ++ [.acknowledged] ∧
      (k.pressAt place shown code refusal).2.sessions = drawn.2.sessions := by
  refine ⟨rfl, ?_⟩
  simp only [pressAt]
  split
  · rfl
  · rfl

theorem pressAt_congr (hk : k.sessions.Roomy places) (hk' : k'.sessions.Roomy places)
    (hplace : place ∈ places) (h : Agree place k k') (shown code : List Char)
    (refusal : Option (List Char)) :
    (k.pressAt place shown code refusal).1 = (k'.pressAt place shown code refusal).1 ∧
      Agree place (k.pressAt place shown code refusal).2
        (k'.pressAt place shown code refusal).2 := by
  have hget := Sessions.get_congr h.state h.limits shown
  have hstate : k.stateAfter place shown code = k'.stateAfter place shown code := by
    rw [stateAfter, hget]
    rfl
  have hstored : (k.pressed place shown code).sessions.peek place =
      (k'.pressed place shown code).sessions.peek place := by
    simp only [pressed, Sessions.peek_update_self, hk.peek_get_self hplace,
      hk'.peek_get_self hplace, Option.map_some, hstate]
  obtain ⟨heffects, hpeek⟩ := redraw_congr hstored (k'.stateAfter place shown code) refusal
    ((k'.sessions.get place shown).1.press code).2
  obtain ⟨hfst, hsessions⟩ := pressAt_eq_redraw k place shown code refusal
  obtain ⟨hfst', hsessions'⟩ := pressAt_eq_redraw k' place shown code refusal
  rw [hget, hstate] at hfst hsessions
  refine ⟨?_, ?_, ?_, ?_⟩
  · rw [hfst, hfst', heffects]
  · rw [hsessions, hsessions', hpeek]
  · rw [limits_pressAt, limits_pressAt, h.limits]
  · rw [alarms_pressAt, alarms_pressAt, hget, hstate]
    split
    · rw [List.filter_append, List.filter_append, h.alarms]
    · exact h.alarms

theorem ring_congr (h : Agree alarm.place k k') (refusal : Option (List Char)) :
    (k.ring alarm refusal).1 = (k'.ring alarm refusal).1 ∧
      Agree alarm.place (k.ring alarm refusal).2 (k'.ring alarm refusal).2 := by
  have hview : (k.ring alarm refusal).1 = (k'.ring alarm refusal).1 ∧
      (k.ring alarm refusal).2.sessions.peek alarm.place =
        (k'.ring alarm refusal).2.sessions.peek alarm.place := by
    have hstate := h.state
    cases hpeek : k'.sessions.peek alarm.place with
    | none =>
      rw [hpeek] at hstate
      simp only [ring, hpeek, hstate, and_self]
    | some state =>
      rw [hpeek] at hstate
      simp only [ring, hpeek, hstate]
      split
      · exact ⟨rfl, h.state⟩
      · apply redraw_congr
        simp only [Sessions.peek_update_self, hpeek, hstate]
  refine ⟨hview.1, hview.2, ?_, ?_⟩
  · rw [limits_ring, limits_ring, h.limits]
  · rw [alarms_ring, alarms_ring, h.alarms]

/-- An alarm of another keypad changes nothing at the place, and what it does is not done there. -/
theorem filter_shows_ring (hne : place ≠ alarm.place) (k : Keypads) (d : Deed)
    (refusal : Option (List Char)) :
    (k.ring alarm refusal).1.filter (d.shows place) = [] := by
  have hedited : ∀ state, ([Effect.edited alarm.place (render state)]).filter
      (d.shows place) = [] := by
    intro state
    simp [Deed.shows, hne.symm]
  simp only [ring]
  split
  · rfl
  · split
    · rfl
    · split
      · exact hedited _
      · rfl

/-! ### Alarms that go off -/

/-- An alarm that is taken out is taken out of the alarms at the place, if it is one of them. -/
theorem agree_erase (h : Agree place k k') (alarm : Alarm) :
    Agree place { k with alarms := k.alarms.erase alarm }
      { k' with alarms := k'.alarms.erase alarm } :=
  ⟨h.state, h.limits, by rw [← List.erase_filter, ← List.erase_filter, h.alarms]⟩

theorem agree_erase_of_ne (hne : place ≠ alarm.place) (k : Keypads) :
    Agree place { k with alarms := k.alarms.erase alarm } k where
  state := rfl
  limits := rfl
  alarms := by
    rw [← List.erase_filter, List.erase_of_not_mem]
    intro hmem
    exact hne (of_decide_eq_true (List.mem_filter.mp hmem).2).symm

theorem agree_rang_of_ne (hne : place ≠ alarm.place) (k : Keypads) (d : Deed)
    (refusal : Option (List Char)) :
    (k.perform (.rang alarm refusal)).1.filter (d.shows place) = [] ∧
      Agree place (k.perform (.rang alarm refusal)).2 k := by
  rw [perform_rang]
  split
  · exact ⟨filter_shows_ring hne _ d refusal,
      (agree_ring_of_ne hne refusal).trans (agree_erase_of_ne hne k)⟩
  · exact ⟨rfl, .refl place k⟩

theorem agree_rang (h : Agree place k k') (alarm : Alarm) (d : Deed)
    (refusal : Option (List Char)) :
    (k.perform (.rang alarm refusal)).1.filter (d.shows place) =
        (k'.perform (.rang alarm refusal)).1.filter (d.shows place) ∧
      Agree place (k.perform (.rang alarm refusal)).2 (k'.perform (.rang alarm refusal)).2 := by
  by_cases hplace : alarm.place = place
  · subst hplace
    rw [perform_rang, perform_rang]
    by_cases hmem : alarm ∈ k.alarms
    · rw [if_pos hmem, if_pos ((h.mem_alarms_iff rfl).mp hmem)]
      obtain ⟨heffects, hagree⟩ := ring_congr (agree_erase h alarm) refusal
      exact ⟨by rw [heffects], hagree⟩
    · rw [if_neg hmem, if_neg fun hmem' => hmem ((h.mem_alarms_iff rfl).mpr hmem')]
      exact ⟨rfl, h⟩
  · have hne : place ≠ alarm.place := fun hsame => hplace hsame.symm
    obtain ⟨heffects, hagree⟩ := agree_rang_of_ne hne k d refusal
    obtain ⟨heffects', hagree'⟩ := agree_rang_of_ne hne k' d refusal
    exact ⟨by rw [heffects, heffects'], hagree.trans (h.trans hagree'.symm)⟩

/-- The same deed, not done to another keypad, is seen in the same way where keypads agree. -/
theorem agree_perform (hk : k.sessions.Roomy places) (hk' : k'.sessions.Roomy places)
    (h : Agree place k k') {d : Deed} (hd : ∀ place, d.place? = some place → place ∈ places)
    (hhere : d.isElsewhere place = false) :
    (k.perform d).1.filter (d.shows place) = (k'.perform d).1.filter (d.shows place) ∧
      Agree place (k.perform d).2 (k'.perform d).2 := by
  have hplace : ∀ q, d.place? = some q → q = place := by
    intro q hq
    rw [Deed.isElsewhere, hq] at hhere
    exact of_decide_eq_false hhere |> Decidable.not_not.mp
  cases d with
  | opened q =>
    obtain rfl := hplace q rfl
    have hmem := hd q rfl
    refine ⟨?_, ?_, h.limits, h.alarms⟩
    · show [Effect.sent q (render (.fresh k.sessions.limits))].filter _ = _
      rw [h.limits]
      rfl
    · show (k.sessions.get q []).2.peek q = (k'.sessions.get q []).2.peek q
      rw [hk.peek_get_self hmem, hk'.peek_get_self hmem, Sessions.get_congr h.state h.limits]
  | pressed data source refusal =>
    show (k.press data source refusal).1.filter _ = (k'.press data source refusal).1.filter _ ∧
      Agree place (k.press data source refusal).2 (k'.press data source refusal).2
    cases source with
    | none => exact ⟨rfl, h⟩
    | some source =>
      obtain ⟨q, shown⟩ := source
      obtain rfl := hplace q rfl
      simp only [press]
      split
      · exact ⟨rfl, h⟩
      · obtain ⟨heffects, hagree⟩ :=
          pressAt_congr hk hk' (hd q rfl) h shown (Key.codeOfData data) refusal
        exact ⟨by rw [heffects], hagree⟩
  | rang alarm refusal => exact agree_rang h alarm _ refusal

/-! ### Runs -/

theorem log_eq_log_filter {deeds : List Deed} (hk : k.sessions.Roomy places)
    (hk' : k'.sessions.Roomy places) (h : Agree place k k')
    (hdeeds : ∀ d ∈ deeds, ∀ place, d.place? = some place → place ∈ places) :
    k.log place deeds = k'.log place (deeds.filter (!·.isElsewhere place)) := by
  induction deeds generalizing k k' with
  | nil => rfl
  | cons d deeds ih =>
    obtain ⟨hd, hdeeds⟩ := List.forall_mem_cons.mp hdeeds
    cases helse : d.isElsewhere place with
    | true =>
      have hagree := (agree_of_isElsewhere hk hd helse).trans h
      have hrest := ih (roomy_perform hk hd) hk' hagree hdeeds
      simpa [log, sights_of_isElsewhere hk hd helse, List.filter_cons, helse] using hrest
    | false =>
      obtain ⟨heffects, hagree⟩ := agree_perform hk hk' h hd helse
      have hrest := ih (roomy_perform hk hd) (roomy_perform hk' hd) hagree hdeeds
      have hsights : k.sights place d = k'.sights place d := by
        simp only [sights, heffects, hagree.state, helse, Bool.false_and]
      simp only [List.filter_cons, helse, Bool.not_false, if_true, log, hsights, hrest]

theorem roomy_empty {capacity : Nat} (locks : Nat) (limits : Limits) (h : places.card ≤ capacity) :
    (empty capacity locks limits).sessions.Roomy places :=
  ⟨⟨List.nodup_nil, fun _ hp => by cases hp⟩, h⟩

/-- Keypads do not interfere. If there is room for all keypads that are opened or pressed, all that
is done for one of them and the states that it goes through are the same as without everything that
is done to the other ones, however many locks are kept. -/
theorem log_eq_log_without_others {capacity : Nat} (locks locks' : Nat) (limits : Limits)
    {deeds : List Deed} (hroom : (touched deeds).card ≤ capacity) (place : Place) :
    (empty capacity locks limits).log place deeds =
      (empty capacity locks' limits).log place (deeds.filter (!·.isElsewhere place)) := by
  refine log_eq_log_filter (roomy_empty locks limits hroom) (roomy_empty locks' limits hroom)
    ⟨rfl, rfl, rfl⟩ ?_
  intro d hd q hq
  exact List.mem_toFinset.mpr (List.mem_filterMap.mpr ⟨d, hd, hq⟩)

/-- Two keypads show errors, and both alarms go off. There is one lock for both, or none. -/
theorem log_eq_log_without_others_of_two :
    let deeds : List Deed := [.pressed "kp:(".toList (some (⟨1, 10⟩, ['0'])) none,
      .opened ⟨1, 11⟩, .pressed "kp:)".toList (some (⟨1, 11⟩, ['0'])) none,
      .pressed "kp:=".toList (some (⟨1, 10⟩, ['('])) none,
      .pressed "kp:=".toList (some (⟨1, 11⟩, [')'])) none,
      .rang ⟨⟨1, 11⟩, 2⟩ none, .rang ⟨⟨1, 10⟩, 2⟩ none]
    (touched deeds).card ≤ 2 ∧
      (empty 2 1 .standard).log ⟨1, 10⟩ deeds = (empty 2 0 .standard).log ⟨1, 10⟩
        [.pressed "kp:(".toList (some (⟨1, 10⟩, ['0'])) none,
          .pressed "kp:=".toList (some (⟨1, 10⟩, ['('])) none,
          .rang ⟨⟨1, 11⟩, 2⟩ none, .rang ⟨⟨1, 10⟩, 2⟩ none] := by
  intro deeds
  have hroom : (touched deeds).card ≤ 2 := by decide +kernel
  exact ⟨hroom, log_eq_log_without_others 1 0 .standard hroom ⟨1, 10⟩⟩

end Keypads
end Chat
end PocketCalculator
