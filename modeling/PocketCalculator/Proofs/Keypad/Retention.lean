import Mathlib.Data.List.Dedup
import Mathlib.Data.List.Perm.Subperm
import PocketCalculator.Proofs.Keypad.Sessions

/-!
# Which keypads are kept

The keypad that has not been got for the longest time is let go of first. So the state of a keypad
is kept, with every key that has been pressed on it, as long as fewer other keypads than there is
room for have been got since (`recent_keypads_are_kept`). This rests on the order of the registry:
behind a keypad there are only keypads that have been got after it (`Registry.Recent`).
-/

namespace PocketCalculator

namespace Registry

variable {κ α : Type} [DecidableEq κ] {r : Registry κ α} {k k' : κ} {v v' : α} {later : List κ}
  {capacity : Nat}

theorem size_trimTo_put_le (h : r.size ≤ capacity) (k : κ) (v : α) :
    ((r.put k v).trimTo capacity).size ≤ capacity := by
  have hput : (r.put k v).size ≤ capacity + 1 := by
    have herase : (r.erase k).size ≤ r.size := List.length_filter_le _ _
    simp only [size, put, List.length_append, List.length_singleton] at herase h ⊢
    omega
  unfold trimTo
  split
  · simp only [size, List.length_tail] at hput ⊢
    omega
  · omega

/-! ### The order of the keys -/

/-- The value `v` is registered under `k`, and only keys among `later` come after `k`. -/
def Recent (r : Registry κ α) (k : κ) (v : α) (later : List κ) : Prop :=
  ∃ older newer, r.entries = older ++ (k, v) :: newer ∧ ∀ e ∈ newer, e.1 ∈ later

theorem Recent.get? (hr : r.Distinct) (h : r.Recent k v later) : r.get? k = some v := by
  obtain ⟨older, newer, hentries, _⟩ := h
  refine get?_of_mem hr ?_
  rw [hentries]
  exact List.mem_append_right _ (List.mem_cons_self ..)

theorem recent_put (r : Registry κ α) (k : κ) (v : α) : (r.put k v).Recent k v [] :=
  ⟨(r.erase k).entries, [], rfl, fun _ he => by cases he⟩

theorem Recent.erase (h : r.Recent k v later) (hne : k' ≠ k) : (r.erase k').Recent k v later := by
  obtain ⟨older, newer, hentries, hnewer⟩ := h
  refine ⟨older.filter fun e => e.1 ≠ k', newer.filter fun e => e.1 ≠ k', ?_, ?_⟩
  · simp only [Registry.erase, hentries, List.filter_append]
    rw [List.filter_cons_of_pos (by simpa using hne.symm)]
  · exact fun e he => hnewer e (List.mem_filter.mp he).1

theorem Recent.put (h : r.Recent k v later) (hne : k' ≠ k) (v' : α) :
    (r.put k' v').Recent k v (later ++ [k']) := by
  obtain ⟨older, newer, hentries, hnewer⟩ := h.erase hne
  refine ⟨older, newer ++ [(k', v')], ?_, ?_⟩
  · simp only [Registry.put, hentries, List.append_assoc, List.cons_append]
  · intro e he
    rcases List.mem_append.mp he with he | he
    · exact List.mem_append_left _ (hnewer e he)
    · rw [List.mem_singleton.mp he]
      exact List.mem_append_right _ (List.mem_singleton_self k')

theorem Recent.replace (h : r.Recent k v later) (k' : κ) (v' : α) :
    (r.replace k' v').Recent k (if k = k' then v' else v) later := by
  obtain ⟨older, newer, hentries, hnewer⟩ := h
  refine ⟨older.map fun e => if e.1 = k' then (k', v') else e,
    newer.map fun e => if e.1 = k' then (k', v') else e, ?_, ?_⟩
  · simp only [Registry.replace, hentries, List.map_append, List.map_cons]
    split
    · next hkey => rw [hkey]
    · rfl
  · intro e he
    obtain ⟨e', he', rfl⟩ := List.mem_map.mp he
    have hmem := hnewer e' he'
    split
    · next hkey =>
      rw [hkey] at hmem
      exact hmem
    · exact hmem

/-- A key stays that has fewer others after it than there is room for. -/
theorem Recent.trimTo (hr : r.Distinct) (h : r.Recent k v later)
    (hroom : later.dedup.length < capacity) : (r.trimTo capacity).Recent k v later := by
  obtain ⟨older, newer, hentries, hnewer⟩ := h
  unfold Registry.trimTo
  split
  · next hfull =>
    cases older with
    | cons e older => exact ⟨older, newer, by rw [hentries]; rfl, hnewer⟩
    | nil =>
      have hdistinct : (newer.map Prod.fst).Nodup := by
        unfold Distinct keys at hr
        rw [hentries] at hr
        exact (List.nodup_cons.mp hr).2
      have hsubset : newer.map Prod.fst ⊆ later.dedup := by
        intro k' hk'
        obtain ⟨e, he, rfl⟩ := List.mem_map.mp hk'
        exact List.mem_dedup.mpr (hnewer e he)
      have hlength := (List.subperm_of_subset hdistinct hsubset).length_le
      rw [size, hentries, List.nil_append, List.length_cons] at hfull
      rw [List.length_map] at hlength
      omega
  · exact ⟨older, newer, hentries, hnewer⟩

/-- The list without repetitions keeps the last occurrence of every key, as a registry does. -/
theorem dedup_concat (ks : List κ) (k : κ) :
    (ks ++ [k]).dedup = ks.dedup.filter (· ≠ k) ++ [k] := by
  induction ks with
  | nil => simp
  | cons k' ks ih =>
    rw [List.cons_append]
    by_cases hmem : k' ∈ ks
    · rw [List.dedup_cons_of_mem (List.mem_append_left _ hmem), List.dedup_cons_of_mem hmem, ih]
    · by_cases hkey : k' = k
      · rw [List.dedup_cons_of_mem (by simp [hkey]), List.dedup_cons_of_notMem hmem, ih,
          List.filter_cons_of_neg (by simpa using hkey)]
      · rw [List.dedup_cons_of_notMem (by simp [hmem, hkey]), List.dedup_cons_of_notMem hmem, ih,
          List.filter_cons_of_pos (by simpa using hkey), List.cons_append]

theorem keys_trimTo_put_sublist {ks : List κ} (h : r.keys.Sublist ks.dedup) (capacity : Nat)
    (k : κ) (v : α) : ((r.put k v).trimTo capacity).keys.Sublist (ks ++ [k]).dedup := by
  have hput : (r.put k v).keys.Sublist (ks ++ [k]).dedup := by
    rw [keys_put, dedup_concat]
    exact (h.filter _).append_right [k]
  unfold trimTo
  split
  · exact ((List.tail_sublist _).map Prod.fst).trans hput
  · exact hput

end Registry

namespace Sessions

variable {κ : Type} [DecidableEq κ]

/-! ### Histories -/

/-- What is done with the sessions. A key is pressed on the state that is registered for a keypad;
a state that is registered no more may be pressed as well, which nobody sees. -/
inductive Use (κ : Type) where
  | get (key : κ) (shown : List Char)
  | press (key : κ) (code : List Char)
  | peek (key : κ)
  | drop (key : κ)
  deriving DecidableEq

/-- The keypad that is used. -/
def Use.key : Use κ → κ
  | .get key _ => key
  | .press key _ => key
  | .peek key => key
  | .drop key => key

/-- The keypad that is got. -/
def Use.got : Use κ → List κ
  | .get key _ => [key]
  | _ => []

/-- The code that is pressed on a keypad. -/
def Use.typed (key : κ) : Use κ → List (List Char)
  | .press key' code => if key' = key then [code] else []
  | _ => []

/-- The keypads that have been got, in this order. -/
def obtained (uses : List (Use κ)) : List κ := uses.flatMap Use.got

/-- The codes that have been pressed on a keypad, in this order. -/
def typed (key : κ) (uses : List (Use κ)) : List (List Char) := uses.flatMap (Use.typed key)

def pressOn (s : Sessions κ) (key : κ) (code : List Char) : Sessions κ :=
  match s.peek key with
  | some state => s.update key (state.press code).1
  | none => s

def use (s : Sessions κ) : Use κ → Sessions κ
  | .get key shown => (s.get key shown).2
  | .press key code => s.pressOn key code
  | .peek _ => s
  | .drop key => s.drop key

def run (s : Sessions κ) (uses : List (Use κ)) : Sessions κ := uses.foldl use s

section

variable {s : Sessions κ} {key : κ} {state : Keypad} {later : List κ}

theorem run_append (s : Sessions κ) (before after : List (Use κ)) :
    s.run (before ++ after) = (s.run before).run after := List.foldl_append

theorem pressOn_states (s : Sessions κ) (key : κ) (code : List Char) :
    s.pressOn key code = s ∨ ∃ state, s.pressOn key code = s.update key state := by
  unfold pressOn
  split
  · exact .inr ⟨_, rfl⟩
  · exact .inl rfl

/-! ### What every history keeps -/

/-- The registry holds no more keypads than there is room for, each one once, in the order in which
they were last got. -/
structure Ordered (s : Sessions κ) (got : List κ) : Prop where
  size_le : s.states.size ≤ s.capacity
  distinct : s.states.Distinct
  sublist : s.states.keys.Sublist got.dedup

omit [DecidableEq κ] in
theorem ordered_empty [DecidableEq κ] (capacity : Nat) (limits : Limits) :
    (empty capacity limits : Sessions κ).Ordered [] where
  size_le := Nat.zero_le _
  distinct := List.nodup_nil
  sublist := List.Sublist.slnil

theorem Ordered.update {got : List κ} (h : s.Ordered got) (key : κ) (state : Keypad) :
    (s.update key state).Ordered got where
  size_le := by
    show (s.states.replace key state).entries.length ≤ s.capacity
    rw [Registry.replace, List.length_map]
    exact h.size_le
  distinct := h.distinct.replace key state
  sublist := by
    show (s.states.replace key state).keys.Sublist _
    rw [Registry.keys_replace]
    exact h.sublist

theorem Ordered.use {got : List κ} (h : s.Ordered got) (u : Use κ) :
    (s.use u).Ordered (got ++ u.got) := by
  cases u with
  | get key shown =>
    exact ⟨Registry.size_trimTo_put_le h.size_le key _, (h.distinct.put key _).trimTo _,
      Registry.keys_trimTo_put_sublist h.sublist s.capacity key _⟩
  | press key code =>
    rw [show got ++ (Use.press key code).got = got from List.append_nil got]
    rcases s.pressOn_states key code with hsame | ⟨state, hstate⟩
    · rw [Sessions.use, hsame]
      exact h
    · rw [Sessions.use, hstate]
      exact h.update key state
  | peek key =>
    rw [show got ++ (Use.peek key).got = got from List.append_nil got]
    exact h
  | drop key =>
    rw [show got ++ (Use.drop key).got = got from List.append_nil got]
    refine ⟨Nat.le_trans (List.length_filter_le _ _) h.size_le, h.distinct.erase key, ?_⟩
    show (s.states.erase key).keys.Sublist _
    rw [Registry.keys_erase]
    exact List.filter_sublist.trans h.sublist

theorem Ordered.run {got : List κ} (h : s.Ordered got) (uses : List (Use κ)) :
    (s.run uses).Ordered (got ++ obtained uses) := by
  induction uses generalizing s got with
  | nil =>
    rw [obtained, List.flatMap_nil, List.append_nil]
    exact h
  | cons u uses ih =>
    have hrest := ih (h.use u)
    rw [List.append_assoc] at hrest
    exact hrest

/-! ### What is kept of one keypad -/

theorem capacity_use (s : Sessions κ) (u : Use κ) : (s.use u).capacity = s.capacity := by
  cases u with
  | get key shown => rfl
  | press key code =>
    rcases s.pressOn_states key code with hsame | ⟨state, hstate⟩
    · rw [use, hsame]
    · rw [use, hstate]
      rfl
  | peek key => rfl
  | drop key => rfl

theorem capacity_run (s : Sessions κ) (uses : List (Use κ)) :
    (s.run uses).capacity = s.capacity := by
  induction uses generalizing s with
  | nil => rfl
  | cons u uses ih => exact (ih (s.use u)).trans (s.capacity_use u)

/-- What is done with other keypads leaves a state alone or lets go of it. -/
theorem peek_use_of_ne (hs : s.states.Distinct) {u : Use κ} (hne : u.key ≠ key) :
    (s.use u).peek key = s.peek key ∨ (s.use u).peek key = none := by
  cases u with
  | get key' shown =>
    cases hpeek : (s.use (.get key' shown)).peek key with
    | none => exact .inr rfl
    | some state =>
      rcases peek_get_of_distinct hs hpeek with ⟨hkey, _⟩ | ⟨_, hsame⟩
      · exact absurd hkey.symm hne
      · exact .inl hsame.symm
  | press key' code =>
    left
    rcases s.pressOn_states key' code with hsame | ⟨state, hstate⟩
    · rw [use, hsame]
    · rw [use, hstate]
      exact peek_update_of_ne hne.symm
  | peek key' => exact .inl rfl
  | drop key' => exact .inl (peek_drop_of_ne hne.symm)

theorem recent_use (hs : s.states.Distinct) (h : s.states.Recent key state later) {u : Use κ}
    (hgot : key ∉ u.got) (hdrop : u ≠ .drop key)
    (hroom : (later ++ u.got).dedup.length < s.capacity) :
    (s.use u).states.Recent key (state.pressAll (u.typed key)) (later ++ u.got) := by
  cases u with
  | get key' shown =>
    have hne : key' ≠ key := fun hkey => hgot (by rw [hkey]; exact List.mem_singleton_self key)
    exact (h.put hne _).trimTo (hs.put key' _) hroom
  | press key' code =>
    rw [show later ++ (Use.press key' code).got = later from List.append_nil later]
    by_cases hkey : key' = key
    · have hpeek : s.peek key' = some state := by
        rw [hkey]
        exact h.get? hs
      have hstates : (s.use (.press key' code)).states =
          s.states.replace key (state.press code).1 := by
        simp only [use, pressOn, hpeek]
        rw [hkey]
        rfl
      rw [hstates, Use.typed, if_pos hkey]
      have hreplace := h.replace key (state.press code).1
      rw [if_pos rfl] at hreplace
      exact hreplace
    · rw [Use.typed, if_neg hkey]
      rcases s.pressOn_states key' code with hsame | ⟨state', hstate⟩
      · rw [use, hsame]
        exact h
      · rw [use, hstate]
        have hreplace := h.replace key' state'
        rw [if_neg fun hkey' => hkey hkey'.symm] at hreplace
        exact hreplace
  | peek key' =>
    rw [show later ++ (Use.peek key').got = later from List.append_nil later]
    exact h
  | drop key' =>
    rw [show later ++ (Use.drop key').got = later from List.append_nil later]
    exact h.erase fun hkey => hdrop (by rw [hkey])

theorem recent_get (hs : s.states.Distinct) (hcapacity : 1 ≤ s.capacity) (key : κ)
    (shown : List Char) : (s.get key shown).2.states.Recent key (s.get key shown).1 [] :=
  (Registry.recent_put s.states key _).trimTo (hs.put key _) hcapacity

theorem length_dedup_le_append (ks ks' : List κ) :
    ks.dedup.length ≤ (ks ++ ks').dedup.length := by
  refine (List.subperm_of_subset (List.nodup_dedup ks) fun k hk => ?_).length_le
  exact List.mem_dedup.mpr (List.mem_append_left _ (List.mem_dedup.mp hk))

/-- As long as there is room for all keypads that are got, a state is kept, with its presses. -/
theorem recent_run {got : List κ} (hs : s.Ordered got) (h : s.states.Recent key state later)
    {uses : List (Use κ)} (hgot : key ∉ obtained uses) (hdrop : .drop key ∉ uses)
    (hroom : (later ++ obtained uses).dedup.length < s.capacity) :
    (s.run uses).states.Recent key (state.pressAll (typed key uses)) (later ++ obtained uses) := by
  induction uses generalizing s state later got with
  | nil =>
    rw [obtained, List.flatMap_nil, List.append_nil]
    exact h
  | cons u uses ih =>
    have happend : later ++ obtained (u :: uses) = (later ++ u.got) ++ obtained uses :=
      (List.append_assoc ..).symm
    have hkeys : key ∉ u.got ∧ key ∉ obtained uses := not_or.mp (List.mem_append.not.mp hgot)
    have hdrops := not_or.mp (List.mem_cons.not.mp hdrop)
    rw [happend] at hroom ⊢
    have hfirst := recent_use hs.distinct h hkeys.1 (Ne.symm hdrops.1)
      (Nat.lt_of_le_of_lt (length_dedup_le_append _ _) hroom)
    rw [← s.capacity_use u] at hroom
    have hrest := ih (hs.use u) hfirst hkeys.2 hdrops.2 hroom
    have htyped : state.pressAll (typed key (u :: uses)) =
        (state.pressAll (u.typed key)).pressAll (typed key uses) := List.foldl_append
    rw [htyped]
    exact hrest

/-! ### Presses on a keypad that has just been got -/

theorem update_of_peek_none (h : s.peek key = none) (state : Keypad) : s.update key state = s := by
  have hstates : s.states.replace key state = s.states :=
    Registry.replace_self fun e he hkey => absurd hkey (Registry.ne_of_get?_eq_none h e he)
  rw [update, hstates]

theorem pressOn_update (s : Sessions κ) (key : κ) (state : Keypad) (code : List Char) :
    (s.update key state).pressOn key code = s.update key (state.press code).1 := by
  cases hpeek : s.peek key with
  | none => simp only [update_of_peek_none hpeek, pressOn, hpeek]
  | some old =>
    have hstate : (s.update key state).peek key = some state := by
      rw [peek_update_self, hpeek]
      rfl
    simp only [pressOn, hstate]
    simp only [update, Registry.replace_replace]

/-- The state after presses whose answers are collected. -/
theorem foldl_press_snd (codes : List (List Char)) (answers : List Bool) (state : Keypad) :
    (codes.foldl (fun (answers, state) code => (answers ++ [(state.press code).2],
      (state.press code).1)) (answers, state)).2 = state.pressAll codes := by
  induction codes generalizing answers state with
  | nil => rfl
  | cons code codes ih => exact ih _ _

theorem run_press_update (s : Sessions κ) (key : κ) (state : Keypad) (codes : List (List Char)) :
    (s.update key state).run (codes.map (.press key)) = s.update key (state.pressAll codes) := by
  induction codes generalizing state with
  | nil => rfl
  | cons code codes ih =>
    have hrest := ih (state.press code).1
    rw [← pressOn_update] at hrest
    exact hrest

theorem update_get (hs : s.states.Distinct) (key : κ) (shown : List Char) :
    (s.get key shown).2.update key (s.get key shown).1 = (s.get key shown).2 := by
  have hdistinct : (s.get key shown).2.states.Distinct := (hs.put key _).trimTo _
  have hstates : (s.get key shown).2.states.replace key (s.get key shown).1 =
      (s.get key shown).2.states := by
    refine Registry.replace_self fun e he hkey => ?_
    subst hkey
    rcases peek_get_of_distinct hs (Registry.get?_of_mem hdistinct he) with ⟨_, hstate⟩ | ⟨hne, _⟩
    · exact hstate
    · exact absurd rfl hne
  rw [update, hstates]

/-- Presses on a keypad, with the state got before them, are a history. -/
theorem press_eq_run (hs : s.states.Distinct) (key : κ) (shown : List Char)
    (codes : List (List Char)) :
    (s.press key shown codes).2 = s.run (.get key shown :: codes.map (.press key)) := by
  have hpress : (s.press key shown codes).2 =
      (s.get key shown).2.update key ((s.get key shown).1.pressAll codes) :=
    congrArg ((s.get key shown).2.update key) (foldl_press_snd codes [] _)
  rw [hpress, ← run_press_update, update_get hs]
  rfl

/-- The registry never holds more keypads than there is room for, each one once, and in the order in
which they were last got. The state of a keypad that was got and has not been dropped since is
still there, with the keys pressed on it since, if fewer other keypads than there is room for have
been got since it was got last. What is done with other keypads does not change it. -/
theorem recent_keypads_are_kept {capacity : Nat} (hcapacity : 1 ≤ capacity) (limits : Limits)
    (uses : List (Use κ)) :
    ((empty capacity limits).run uses).states.size ≤ capacity ∧
    ((empty capacity limits).run uses).states.keys.Nodup ∧
    ((empty capacity limits).run uses).states.keys.Sublist (obtained uses).dedup ∧
    (∀ before key shown after, uses = before ++ .get key shown :: after →
      key ∉ obtained after → .drop key ∉ after → (obtained after).dedup.length < capacity →
      ((empty capacity limits).run uses).peek key =
        some ((((empty capacity limits).run before).get key shown).1.pressAll (typed key after))) ∧
    ∀ (u : Use κ) (key : κ), u.key ≠ key →
      (((empty capacity limits).run uses).use u).peek key =
          ((empty capacity limits).run uses).peek key ∨
        (((empty capacity limits).run uses).use u).peek key = none := by
  have hempty : (empty capacity limits : Sessions κ).Ordered [] := ordered_empty capacity limits
  have hrun := hempty.run uses
  have hsize := hrun.size_le
  rw [capacity_run] at hsize
  refine ⟨hsize, hrun.distinct, hrun.sublist, ?_, ?_⟩
  · rintro before key shown after rfl hgot hdrop hlength
    have hbefore := hempty.run before
    have hcap : ((empty capacity limits).run before).capacity = capacity :=
      capacity_run (empty capacity limits) before
    have hget := hbefore.use (.get key shown)
    rw [← hcap] at hcapacity hlength
    have hrecent := recent_get hbefore.distinct hcapacity key shown
    have hstate := recent_run hget hrecent hgot hdrop hlength
    have hafter := hget.run after
    rw [run_append]
    exact hstate.get? hafter.distinct
  · exact fun u key hne => peek_use_of_ne hrun.distinct hne

theorem recent_keypads_are_kept_of_two :
    ((empty 2 .standard : Sessions Nat).run [.get 1 [], .press 1 ['7'], .get 2 [], .press 1 ['5'],
      .peek 3, .press 2 ['9']]).peek 1 = some ⟨['7', '5'], .typing, 2, .standard⟩ := by
  have hcapacity : 1 ≤ 2 := by decide
  have hkept := (recent_keypads_are_kept hcapacity .standard
    [.get (1 : Nat) [], .press 1 ['7'], .get 2 [], .press 1 ['5'], .peek 3, .press 2 ['9']]).2.2.2.1
  exact (hkept [] 1 [] _ rfl (by decide) (by decide) (by decide)).trans (by decide)

end

end Sessions

end PocketCalculator
