import PocketCalculator.Keypad.Sessions
import PocketCalculator.Proofs.Registry

/-!
# Lookups in sessions

What an operation on the state of one keypad does to that state and to the other ones.
-/

namespace PocketCalculator.Sessions

variable {κ : Type} [DecidableEq κ] {s : Sessions κ} {key key' : κ} {shown : List Char}
  {state state' : Keypad}

/-- Every keypad has one state, with the limit of new ones. -/
structure Valid (s : Sessions κ) : Prop where
  distinct : s.states.Distinct
  limits : s.states.All fun state => state.limits = s.limits

theorem contains_iff : s.contains key = true ↔ ∃ state, s.peek key = some state :=
  Registry.contains_iff

omit [DecidableEq κ] in
theorem valid_empty (capacity : Nat) (limits : Limits) :
    (empty capacity limits : Sessions κ).Valid where
  distinct := List.nodup_nil
  limits := fun e he => by cases he

theorem ofDisplay_limits (limits : Limits) (text : List Char) :
    (Keypad.ofDisplay limits text).limits = limits := by
  simp only [Keypad.ofDisplay]
  split
  · rfl
  · rfl

theorem Valid.peek_limits (hs : s.Valid) (h : s.peek key = some state) : state.limits = s.limits :=
  hs.limits.get? h

/-! ### Getting a state -/

theorem get_limits (hs : s.Valid) (key : κ) (shown : List Char) :
    (s.get key shown).1.limits = s.limits := by
  show ((s.states.get? key).getD _).limits = s.limits
  cases h : s.states.get? key with
  | none => exact ofDisplay_limits s.limits shown
  | some state => exact hs.limits.get? h

theorem get_of_peek (h : s.peek key = some state) : (s.get key shown).1 = state := by
  show (s.states.get? key).getD _ = state
  rw [show s.states.get? key = some state from h]
  rfl

theorem get_of_peek_none (h : s.peek key = none) :
    (s.get key shown).1 = .ofDisplay s.limits shown := by
  show (s.states.get? key).getD _ = _
  rw [show s.states.get? key = none from h]
  rfl

theorem Valid.get (hs : s.Valid) (key : κ) (shown : List Char) : (s.get key shown).2.Valid where
  distinct := (hs.distinct.put key _).trimTo _
  limits := (hs.limits.put key (get_limits hs key shown)).trimTo _

/-- What is kept after getting a state is that state, or it has been kept before. -/
theorem peek_get_of_distinct (hs : s.states.Distinct)
    (h : (s.get key shown).2.peek key' = some state) :
    (key' = key ∧ state = (s.get key shown).1) ∨ (key' ≠ key ∧ s.peek key' = some state) := by
  have hput := Registry.get?_of_trimTo (hs.put key (s.get key shown).1) h
  by_cases hkey : key' = key
  · left
    rw [hkey, Registry.get?_put_self] at hput
    cases hput
    exact ⟨hkey, rfl⟩
  · right
    rw [Registry.get?_put_of_ne hkey] at hput
    exact ⟨hkey, hput⟩

theorem peek_get (hs : s.Valid) (h : (s.get key shown).2.peek key' = some state) :
    (key' = key ∧ state = (s.get key shown).1) ∨ (key' ≠ key ∧ s.peek key' = some state) :=
  peek_get_of_distinct hs.distinct h

theorem peek_get_self (hcapacity : 0 < s.capacity) (key : κ) (shown : List Char) :
    (s.get key shown).2.peek key = some (s.get key shown).1 :=
  Registry.get?_trimTo_put hcapacity s.states key _

theorem eq_of_peek_get (hs : s.Valid) (hstate : s.peek key' = some state)
    (h : (s.get key shown).2.peek key' = some state') : state' = state := by
  rcases peek_get hs h with ⟨rfl, hsame⟩ | ⟨_, hsame⟩
  · exact hsame.trans (get_of_peek hstate)
  · exact Option.some.inj (hsame.symm.trans hstate)

/-! ### Changing a state -/

theorem Valid.update (hs : s.Valid) (key : κ) (h : state.limits = s.limits) :
    (s.update key state).Valid where
  distinct := hs.distinct.replace key state
  limits := hs.limits.replace key h

theorem peek_update_self (s : Sessions κ) (key : κ) (state : Keypad) :
    (s.update key state).peek key = (s.peek key).map fun _ => state :=
  Registry.get?_replace_self s.states key state

theorem peek_update_of_ne (h : key' ≠ key) : (s.update key state).peek key' = s.peek key' :=
  Registry.get?_replace_of_ne h

theorem peek_of_update (h : (s.update key state).peek key' = some state') :
    (key' = key ∧ state' = state) ∨ (key' ≠ key ∧ s.peek key' = some state') := by
  by_cases hkey : key' = key
  · left
    rw [hkey, peek_update_self] at h
    obtain ⟨_, _, rfl⟩ := Option.map_eq_some_iff.mp h
    exact ⟨hkey, rfl⟩
  · right
    rw [peek_update_of_ne hkey] at h
    exact ⟨hkey, h⟩

theorem Valid.drop (hs : s.Valid) (key : κ) : (s.drop key).Valid where
  distinct := hs.distinct.erase key
  limits := hs.limits.erase key

theorem peek_drop_self (s : Sessions κ) (key : κ) : (s.drop key).peek key = none :=
  Registry.get?_erase_self s.states key

theorem peek_drop_of_ne (h : key' ≠ key) : (s.drop key).peek key' = s.peek key' :=
  Registry.get?_erase_of_ne h

end PocketCalculator.Sessions
