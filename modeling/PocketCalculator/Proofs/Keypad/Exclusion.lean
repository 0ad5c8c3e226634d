import Mathlib.Data.List.Basic
import Mathlib.Data.List.Nodup
import PocketCalculator.Keypad.Locks
import PocketCalculator.Proofs.Registry

/-!
# One held lock for each keypad

What lets go of locks passes over the held ones: it takes the oldest free ones, as many as there
are too many (`entries_forKeypad_new`). Somebody may wait for a free lock. If it is let go of then,
it is held again later and yet not registered (`two_held_locks_of_waiting`). Apart from these strays
a held lock stays the one that is registered for its keypad, so no keypad has two held ones
(`held_locks_exclude_others`).
-/

namespace PocketCalculator.Locks

variable {κ : Type} [DecidableEq κ] {l : Locks κ} {key : κ} {lock : Nat} {log : List (κ × Nat)}

/-! ### Letting go of locks -/

/-- Whether an entry may be let go of when the lock of `key` is created. -/
def isSpare (l : Locks κ) (key : κ) (e : κ × Nat) : Bool := e.1 ≠ key && !l.isHeld e.2

/-- The registered locks that nobody holds, the least recently used first. -/
def free (l : Locks κ) : List (κ × Nat) := l.registered.entries.filter fun e => !l.isHeld e.2

theorem evict_eq_filter {entries : List (κ × Nat)} (hentries : entries.Nodup) (excess : Nat) :
    l.evict key excess entries =
      entries.filter (· ∉ (entries.filter (l.isSpare key)).take excess) := by
  induction entries generalizing excess with
  | nil => rfl
  | cons e es ih =>
    obtain ⟨hfresh, hrest⟩ := List.nodup_cons.mp hentries
    cases excess with
    | zero => simp [evict]
    | succ excess =>
      by_cases hspare : l.isSpare key e = true
      · have hevict : l.evict key (excess + 1) (e :: es) = l.evict key excess es := if_pos hspare
        have htail : ∀ e' ∈ es, e' ≠ e := fun e' he' => ne_of_mem_of_not_mem he' hfresh
        rw [hevict, ih hrest, List.filter_cons_of_pos hspare, List.take_succ_cons,
          List.filter_cons_of_neg (by simp)]
        refine List.filter_congr fun e' he' => ?_
        simp [htail e' he']
      · have hevict : l.evict key (excess + 1) (e :: es) = e :: l.evict key (excess + 1) es :=
          if_neg hspare
        rw [hevict, ih hrest, List.filter_cons_of_neg hspare, List.filter_cons_of_pos]
        rw [decide_eq_true_eq]
        exact fun he => hspare (List.mem_filter.mp (List.mem_of_mem_take he)).2

/-! ### Asking for the lock of a keypad -/

theorem forKeypad_of_registered (h : l.registered.get? key = some lock) :
    l.forKeypad key = (lock, { l with registered := l.registered.put key lock }) := by
  rw [forKeypad, h]

theorem forKeypad_new (h : l.registered.get? key = none) :
    (l.forKeypad key).1 = l.created ∧ (l.forKeypad key).2.created = l.created + 1 := by
  rw [forKeypad, h]
  exact ⟨rfl, rfl⟩

theorem held_forKeypad (l : Locks κ) (key : κ) : (l.forKeypad key).2.held = l.held := by
  unfold forKeypad
  split <;> rfl

theorem waiting_forKeypad (l : Locks κ) (key : κ) : (l.forKeypad key).2.waiting = l.waiting := by
  unfold forKeypad
  split <;> rfl

theorem capacity_forKeypad (l : Locks κ) (key : κ) :
    (l.forKeypad key).2.capacity = l.capacity := by
  unfold forKeypad
  split <;> rfl

theorem isHeld_forKeypad (l : Locks κ) (key : κ) (lock : Nat) :
    (l.forKeypad key).2.isHeld lock = l.isHeld lock := by
  rw [isHeld, held_forKeypad, isHeld]

theorem erase_of_get?_eq_none (h : l.registered.get? key = none) :
    (l.registered.erase key).entries = l.registered.entries :=
  List.filter_eq_self.mpr fun e he => by simpa using Registry.ne_of_get?_eq_none h e he

/-- A new lock goes in after the others, of which the oldest free ones make room for it. -/
theorem entries_forKeypad_new (hdistinct : l.registered.Distinct)
    (h : l.registered.get? key = none) :
    (l.forKeypad key).2.registered.entries =
      l.registered.entries.filter (· ∉ l.free.take (l.size + 1 - l.capacity)) ++
        [(key, l.created)] := by
  have hgrown : (l.registered.put key l.created).entries =
      l.registered.entries ++ [(key, l.created)] := by
    rw [Registry.put, erase_of_get?_eq_none h]
  have hspare : (l.registered.entries ++ [(key, l.created)]).filter (l.isSpare key) = l.free := by
    rw [List.filter_append, List.filter_cons_of_neg (by simp [isSpare]), List.filter_nil,
      List.append_nil, free]
    refine List.filter_congr fun e he => ?_
    simp [isSpare, Registry.ne_of_get?_eq_none h e he]
  have hnew : (key, l.created) ∉ l.free.take (l.size + 1 - l.capacity) := fun hmem =>
    Registry.ne_of_get?_eq_none h _ (List.mem_filter.mp (List.mem_of_mem_take hmem)).1 rfl
  have hentries : (l.forKeypad key).2.registered.entries =
      l.evict key (l.size + 1 - l.capacity) (l.registered.entries ++ [(key, l.created)]) := by
    rw [forKeypad, h]
    simp only [hgrown, Registry.size, List.length_append, List.length_singleton, size]
  have hnodup : (l.registered.entries ++ [(key, l.created)]).Nodup := by
    rw [← hgrown]
    exact List.Nodup.of_map Prod.fst (hdistinct.put key l.created)
  rw [hentries, evict_eq_filter hnodup, hspare, List.filter_append,
    List.filter_cons_of_pos (by simpa using hnew), List.filter_nil]

theorem length_free_add (hdistinct : l.registered.Distinct) (count : Nat) :
    (l.registered.entries.filter (· ∉ l.free.take count)).length + min count l.free.length =
      l.size := by
  have hnodup : l.registered.entries.Nodup := List.Nodup.of_map Prod.fst hdistinct
  have hperm : (l.registered.entries.filter (· ∈ l.free.take count)).Perm (l.free.take count) := by
    have htaken : (l.free.take count).Nodup := (hnodup.filter _).sublist (List.take_sublist _ _)
    refine (List.perm_ext_iff_of_nodup (hnodup.filter _) htaken).mpr fun e => ?_
    rw [List.mem_filter, decide_eq_true_eq, and_iff_right_iff_imp]
    exact fun he => (List.mem_filter.mp (List.mem_of_mem_take he)).1
  have hsplit := l.registered.entries.length_eq_length_filter_add (· ∈ l.free.take count)
  rw [hperm.length_eq, List.length_take] at hsplit
  simp only [decide_not, size, Registry.size] at hsplit ⊢
  omega

/-- There is room for a new lock, or all the others are held. -/
theorem size_forKeypad_new_le_or (hdistinct : l.registered.Distinct)
    (h : l.registered.get? key = none) :
    (l.forKeypad key).2.size ≤ l.capacity ∨
      ∀ e ∈ (l.forKeypad key).2.registered.entries, e.1 ≠ key →
        (l.forKeypad key).2.isHeld e.2 = true := by
  have hentries := entries_forKeypad_new hdistinct h
  by_cases hmany : l.size + 1 - l.capacity < l.free.length
  · left
    have hlength := length_free_add hdistinct (l.size + 1 - l.capacity)
    have hfree : l.free.length ≤ l.size := List.length_filter_le _ _
    rw [size, Registry.size, hentries, List.length_append, List.length_singleton]
    omega
  · right
    rw [hentries, List.take_of_length_le (Nat.le_of_not_lt hmany)]
    intro e he hne
    rw [isHeld_forKeypad]
    rcases List.mem_append.mp he with he | he
    · obtain ⟨hmem, hkept⟩ := List.mem_filter.mp he
      rw [decide_eq_true_eq, free, List.mem_filter, not_and, Bool.not_eq_true',
        Bool.not_eq_false] at hkept
      exact hkept hmem
    · exact absurd (congrArg Prod.fst (List.mem_singleton.mp he)) hne

/-! ### Histories -/

/-- What is done with the locks: the lock of a keypad is asked for, or it is asked for and taken or
waited for, or any lock is given back, which does nothing if nobody holds it, or the first one who
waits for a lock goes on. -/
inductive Use (κ : Type) where
  | ask (key : κ)
  | enter (key : κ)
  | release (lock : Nat)
  | resume (lock : Nat)
  deriving DecidableEq

def enter (l : Locks κ) (key : κ) : Locks κ :=
  let (lock, l) := l.forKeypad key
  l.acquire lock

def use (l : Locks κ) : Use κ → Locks κ
  | .ask key => (l.forKeypad key).2
  | .enter key => l.enter key
  | .release lock => (l.release lock).getD l
  | .resume lock => l.resume lock

def run (l : Locks κ) (uses : List (Use κ)) : Locks κ := uses.foldl use l

/-- The lock that is handed out, with its keypad. -/
def handedOut (l : Locks κ) : Use κ → List (κ × Nat)
  | .ask key => [(key, (l.forKeypad key).1)]
  | .enter key => [(key, (l.forKeypad key).1)]
  | .release _ => []
  | .resume _ => []

/-- All locks that are handed out in a history, with their keypads. -/
def handles (l : Locks κ) : List (Use κ) → List (κ × Nat)
  | [] => []
  | u :: uses => l.handedOut u ++ (l.use u).handles uses

def isRegistered (l : Locks κ) (lock : Nat) : Bool := l.registered.entries.any (·.2 = lock)

/-- The locks that are waited for and registered, and no longer registered afterwards. -/
def letGo (l after : Locks κ) : List Nat :=
  l.waiting.filter fun lock => l.isRegistered lock && !after.isRegistered lock

/-- The locks that are let go of in a history while somebody waits for them. -/
def strays (l : Locks κ) : List (Use κ) → List Nat
  | [] => []
  | u :: uses => l.letGo (l.use u) ++ (l.use u).strays uses

/-- Somebody holds the lock or waits for it. -/
def IsWanted (l : Locks κ) (lock : Nat) : Prop := l.isHeld lock = true ∨ lock ∈ l.waiting

/-- The locks differ only in who holds them and who waits for them. -/
structure SameRegistration (l after : Locks κ) : Prop where
  registered : after.registered = l.registered
  created : after.created = l.created
  capacity : after.capacity = l.capacity

section Uses

omit [DecidableEq κ]

theorem isRegistered_iff :
    l.isRegistered lock = true ↔ ∃ key, (key, lock) ∈ l.registered.entries := by
  simp [isRegistered]

theorem mem_letGo {after : Locks κ} :
    lock ∈ l.letGo after ↔
      lock ∈ l.waiting ∧ l.isRegistered lock = true ∧ after.isRegistered lock = false := by
  simp [letGo]

theorem SameRegistration.isRegistered {after : Locks κ} (h : l.SameRegistration after)
    (lock : Nat) : after.isRegistered lock = l.isRegistered lock := by
  rw [Locks.isRegistered, Locks.isRegistered, h.registered]

theorem SameRegistration.letGo_eq {asked after : Locks κ} (h : asked.SameRegistration after) :
    l.letGo after = l.letGo asked := by
  simp only [letGo, h.isRegistered]

theorem SameRegistration.letGo_eq_nil {after : Locks κ} (h : l.SameRegistration after) :
    l.letGo after = [] := by
  simp [letGo, h.isRegistered]

theorem isHeld_cons_iff {held : List Nat} {lock' : Nat} :
    ({ l with held := lock :: held } : Locks κ).isHeld lock' = true ↔
      lock' = lock ∨ ({ l with held := held } : Locks κ).isHeld lock' = true := by
  simp [isHeld]

theorem sameRegistration_acquire (l : Locks κ) (lock : Nat) :
    l.SameRegistration (l.acquire lock) := by
  unfold acquire
  split <;> exact ⟨rfl, rfl, rfl⟩

theorem sameRegistration_release (l : Locks κ) (lock : Nat) :
    l.SameRegistration ((l.release lock).getD l) := by
  unfold release
  split <;> exact ⟨rfl, rfl, rfl⟩

theorem sameRegistration_resume (l : Locks κ) (lock : Nat) :
    l.SameRegistration (l.resume lock) := by
  unfold resume
  split <;> exact ⟨rfl, rfl, rfl⟩

/-- Whoever is to take a lock holds it or waits for it. -/
theorem isWanted_acquire {lock' : Nat} (h : (l.acquire lock).IsWanted lock') :
    lock' = lock ∨ l.IsWanted lock' := by
  unfold acquire at h
  split at h
  · rcases h with hheld | hwaiting
    · exact .inr (.inl hheld)
    · rcases List.mem_append.mp hwaiting with hwaiting | hnew
      · exact .inr (.inr hwaiting)
      · exact .inl (List.mem_singleton.mp hnew)
  · rcases h with hheld | hwaiting
    · exact (isHeld_cons_iff.mp hheld).imp_right .inl
    · exact .inr (.inr hwaiting)

theorem isWanted_release {lock' : Nat} (h : ((l.release lock).getD l).IsWanted lock') :
    l.IsWanted lock' := by
  unfold release at h
  split at h
  · rcases h with hheld | hwaiting
    · have hmem := List.mem_of_mem_erase (List.contains_iff_mem.mp hheld)
      exact .inl (List.contains_iff_mem.mpr hmem)
    · exact .inr hwaiting
  · exact h

/-- Who goes on has waited for the lock. -/
theorem isWanted_resume {lock' : Nat} (h : (l.resume lock).IsWanted lock') :
    l.IsWanted lock' := by
  unfold resume at h
  split at h
  · next hfree =>
    rcases h with hheld | hwaiting
    · rcases isHeld_cons_iff.mp hheld with rfl | hheld
      · exact .inr (List.contains_iff_mem.mp (Bool.and_eq_true_iff.mp hfree).2)
      · exact .inl hheld
    · exact .inr (List.mem_of_mem_erase hwaiting)
  · exact h

theorem isHeld_acquire {lock' : Nat} (h : l.isHeld lock' = true) :
    (l.acquire lock).isHeld lock' = true := by
  unfold acquire
  split
  · exact h
  · exact isHeld_cons_iff.mpr (.inr h)

theorem isHeld_release_of_ne {lock' : Nat} (hne : lock' ≠ lock) (h : l.isHeld lock' = true) :
    ((l.release lock).getD l).isHeld lock' = true := by
  unfold release
  split
  · exact List.contains_iff_mem.mpr ((List.mem_erase_of_ne hne).mpr (List.contains_iff_mem.mp h))
  · exact h

theorem isHeld_resume {lock' : Nat} (h : l.isHeld lock' = true) :
    (l.resume lock).isHeld lock' = true := by
  unfold resume
  split
  · exact isHeld_cons_iff.mpr (.inr h)
  · exact h

end Uses

theorem isWanted_forKeypad {lock : Nat} : (l.forKeypad key).2.IsWanted lock ↔ l.IsWanted lock := by
  rw [IsWanted, IsWanted, isHeld_forKeypad, waiting_forKeypad]

/-! ### What every history keeps -/

/-- No lock has been handed out for two keypads. The strays are not registered, and the other locks
that are held or waited for are. -/
structure Consistent (l : Locks κ) (log : List (κ × Nat)) (gone : List Nat) : Prop where
  distinct : l.registered.Distinct
  registered_mem : ∀ e ∈ l.registered.entries, e ∈ log
  lt_created : ∀ e ∈ log, e.2 < l.created
  key_eq : ∀ e ∈ log, ∀ e' ∈ log, e.2 = e'.2 → e.1 = e'.1
  gone_mem : ∀ lock ∈ gone, ∃ key, (key, lock) ∈ log
  not_registered : ∀ lock ∈ gone, l.isRegistered lock = false
  wanted : ∀ lock, l.IsWanted lock → lock ∈ gone ∨ l.isRegistered lock = true

omit [DecidableEq κ] in
theorem consistent_empty (capacity : Nat) : (empty capacity : Locks κ).Consistent [] [] where
  distinct := List.nodup_nil
  registered_mem := fun e he => he
  lt_created := fun e he => by cases he
  key_eq := fun e he => by cases he
  gone_mem := fun lock h => by cases h
  not_registered := fun lock h => by cases h
  wanted := fun lock h => by rcases h with h | h <;> cases h

section Consistency

variable {gone : List Nat}

omit [DecidableEq κ] in
/-- Nobody wants a lock that is not registered and that nobody wanted before. -/
theorem Consistent.congr {after : Locks κ} (hl : l.Consistent log gone)
    (hsame : l.SameRegistration after)
    (hwanted : ∀ lock, after.IsWanted lock → l.IsWanted lock ∨ l.isRegistered lock = true) :
    after.Consistent log gone := by
  refine ⟨hsame.registered ▸ hl.distinct, hsame.registered ▸ hl.registered_mem,
    hsame.created ▸ hl.lt_created, hl.key_eq, hl.gone_mem, fun lock hgone => ?_,
    fun lock h => ?_⟩
  · rw [hsame.isRegistered]
    exact hl.not_registered lock hgone
  · rw [hsame.isRegistered]
    exact (hwanted lock h).elim (hl.wanted lock) .inr

/-- A registered lock that has been handed out for a keypad is registered for it. -/
theorem Consistent.get?_of_registered (hl : l.Consistent log gone) (hmem : (key, lock) ∈ log)
    (h : l.isRegistered lock = true) : l.registered.get? key = some lock := by
  obtain ⟨key', hkey'⟩ := isRegistered_iff.mp h
  have hkey : key' = key := hl.key_eq _ (hl.registered_mem _ hkey') _ hmem rfl
  rw [← hkey]
  exact Registry.get?_of_mem hl.distinct hkey'

/-- No held lock is let go of. -/
theorem Consistent.isRegistered_forKeypad_of_held (hl : l.Consistent log gone) (key : κ)
    (hheld : l.isHeld lock = true) (h : l.isRegistered lock = true) :
    (l.forKeypad key).2.isRegistered lock = true := by
  obtain ⟨key', hkey'⟩ := isRegistered_iff.mp h
  refine isRegistered_iff.mpr ⟨key', ?_⟩
  cases hget : l.registered.get? key with
  | some lock' =>
    rw [forKeypad_of_registered hget]
    by_cases hkey : key' = key
    · subst hkey
      have hlock : some lock' = some lock :=
        hget.symm.trans (Registry.get?_of_mem hl.distinct hkey')
      rw [Option.some.inj hlock]
      exact List.mem_append_right _ (List.mem_singleton_self _)
    · exact List.mem_append_left _ (List.mem_filter.mpr ⟨hkey', by simpa using hkey⟩)
  | none =>
    rw [entries_forKeypad_new hl.distinct hget]
    refine List.mem_append_left _ (List.mem_filter.mpr ⟨hkey', ?_⟩)
    rw [decide_eq_true_eq]
    intro htaken
    have hfree := (List.mem_filter.mp (List.mem_of_mem_take htaken)).2
    rw [hheld] at hfree
    cases hfree

/-- The lock that is handed out is registered, and if it was not so before, it is new. -/
theorem Consistent.asked (hl : l.Consistent log gone) (key : κ) :
    (l.forKeypad key).2.registered.Distinct ∧
      (l.forKeypad key).2.registered.get? key = some (l.forKeypad key).1 ∧
      ((key, (l.forKeypad key).1) ∈ l.registered.entries ∧
          (l.forKeypad key).2.created = l.created ∨
        (l.forKeypad key).1 = l.created ∧ (l.forKeypad key).2.created = l.created + 1) ∧
      ∀ e ∈ (l.forKeypad key).2.registered.entries,
        e ∈ l.registered.entries ∨ e = (key, (l.forKeypad key).1) := by
  cases hget : l.registered.get? key with
  | some lock =>
    rw [forKeypad_of_registered hget]
    refine ⟨hl.distinct.put key lock, Registry.get?_put_self l.registered key lock,
      .inl ⟨Registry.mem_of_get? hget, rfl⟩, fun e he => ?_⟩
    exact (List.mem_append.mp he).imp (fun he => (List.mem_filter.mp he).1) List.mem_singleton.mp
  | none =>
    have hentries := entries_forKeypad_new hl.distinct hget
    have hnew := forKeypad_new hget
    have hdistinct : (l.forKeypad key).2.registered.Distinct := by
      have hgrown := hl.distinct.put key l.created
      unfold Registry.Distinct Registry.keys at hgrown ⊢
      rw [Registry.put, erase_of_get?_eq_none hget] at hgrown
      rw [hentries]
      exact hgrown.sublist ((List.filter_sublist.append_right _).map Prod.fst)
    rw [← hnew.1] at hentries
    refine ⟨hdistinct, Registry.get?_of_mem hdistinct ?_, .inr hnew, fun e he => ?_⟩
    · rw [hentries]
      exact List.mem_append_right _ (List.mem_singleton_self _)
    · rw [hentries] at he
      exact (List.mem_append.mp he).imp (fun he => (List.mem_filter.mp he).1) List.mem_singleton.mp

/-- A lock that has been let go of is never handed out again. -/
theorem Consistent.not_registered_forKeypad (hl : l.Consistent log gone) (key : κ) {lock : Nat}
    (hgone : lock ∈ gone) : (l.forKeypad key).2.isRegistered lock = false := by
  obtain ⟨_, _, horigin, hentries⟩ := hl.asked key
  have hbefore : ∀ key', (key', lock) ∉ l.registered.entries := by
    intro key' hmem
    have hregistered := isRegistered_iff.mpr ⟨key', hmem⟩
    rw [hl.not_registered lock hgone] at hregistered
    cases hregistered
  rw [← Bool.not_eq_true, isRegistered_iff]
  rintro ⟨key', hmem⟩
  rcases hentries _ hmem with hmem | hsame
  · exact hbefore key' hmem
  · have hlock : lock = (l.forKeypad key).1 := congrArg Prod.snd hsame
    rcases horigin with ⟨hmem, _⟩ | ⟨hnew, _⟩
    · exact hbefore key (hlock ▸ hmem)
    · obtain ⟨key'', hmem⟩ := hl.gone_mem lock hgone
      exact Nat.ne_of_lt (hl.lt_created _ hmem) (hlock.trans hnew)

/-- The lock of a keypad is asked for. What is let go of for it while it is waited for is astray. -/
theorem Consistent.forKeypad (hl : l.Consistent log gone) (key : κ) :
    (l.forKeypad key).2.Consistent (log ++ [(key, (l.forKeypad key).1)])
      (gone ++ l.letGo (l.forKeypad key).2) := by
  obtain ⟨hdistinct, hget, horigin, hentries⟩ := hl.asked key
  -- What has been handed out now is in the log already, or it is the new lock.
  have hlog : ∀ e ∈ log ++ [(key, (l.forKeypad key).1)],
      e ∈ log ∨ e = (key, l.created) ∧ (l.forKeypad key).2.created = l.created + 1 := by
    intro e he
    rcases List.mem_append.mp he with he | he
    · exact .inl he
    · rw [List.mem_singleton.mp he]
      rcases horigin with ⟨hmem, _⟩ | ⟨hnew, hcreated⟩
      · exact .inl (hl.registered_mem _ hmem)
      · exact .inr ⟨by rw [hnew], hcreated⟩
  have hle : l.created ≤ (l.forKeypad key).2.created := by
    rcases horigin with ⟨_, hcreated⟩ | ⟨_, hcreated⟩
    · exact Nat.le_of_eq hcreated.symm
    · exact hcreated ▸ Nat.le_succ _
  refine ⟨hdistinct, fun e he => ?_, fun e he => ?_, fun e he e' he' hlock => ?_, fun lock h => ?_,
    fun lock h => ?_, fun lock h => ?_⟩
  · rcases hentries e he with he | rfl
    · exact List.mem_append_left _ (hl.registered_mem e he)
    · exact List.mem_append_right _ (List.mem_singleton_self _)
  · rcases hlog e he with he | ⟨rfl, hcreated⟩
    · exact Nat.lt_of_lt_of_le (hl.lt_created e he) hle
    · exact hcreated ▸ Nat.lt_succ_self _
  · rcases hlog e he with he | ⟨rfl, _⟩ <;> rcases hlog e' he' with he' | ⟨rfl, _⟩
    · exact hl.key_eq e he e' he' hlock
    · exact absurd hlock (Nat.ne_of_lt (hl.lt_created e he))
    · exact absurd hlock (Nat.ne_of_gt (hl.lt_created e' he'))
    · rfl
  · rcases List.mem_append.mp h with h | h
    · obtain ⟨key', hmem⟩ := hl.gone_mem lock h
      exact ⟨key', List.mem_append_left _ hmem⟩
    · obtain ⟨key', hmem⟩ := isRegistered_iff.mp (mem_letGo.mp h).2.1
      exact ⟨key', List.mem_append_left _ (hl.registered_mem _ hmem)⟩
  · rcases List.mem_append.mp h with h | h
    · exact hl.not_registered_forKeypad key h
    · exact (mem_letGo.mp h).2.2
  · rcases hl.wanted lock (isWanted_forKeypad.mp h) with hgone | hregistered
    · exact .inl (List.mem_append_left _ hgone)
    · -- It is still registered, or it has been let go of, and then somebody waits for it.
      cases hafter : (l.forKeypad key).2.isRegistered lock with
      | true => exact .inr rfl
      | false =>
        refine .inl (List.mem_append_right _ (mem_letGo.mpr ⟨?_, hregistered, hafter⟩))
        refine (isWanted_forKeypad.mp h).resolve_left fun hheld => ?_
        rw [hl.isRegistered_forKeypad_of_held key hheld hregistered] at hafter
        cases hafter

/-- Every use keeps it. -/
theorem Consistent.use (hl : l.Consistent log gone) (u : Use κ) :
    (l.use u).Consistent (log ++ l.handedOut u) (gone ++ l.letGo (l.use u)) := by
  cases u with
  | ask key => exact hl.forKeypad key
  | enter key =>
    have hsame := sameRegistration_acquire (l.forKeypad key).2 (l.forKeypad key).1
    have hasked := hl.forKeypad key
    rw [← hsame.letGo_eq] at hasked
    refine hasked.congr hsame fun lock h => ?_
    rcases isWanted_acquire h with rfl | h
    · exact .inr (isRegistered_iff.mpr ⟨key, Registry.mem_of_get? (hl.asked key).2.1⟩)
    · exact .inl h
  | release lock =>
    have hsame : l.SameRegistration (l.use (.release lock)) := sameRegistration_release l lock
    rw [hsame.letGo_eq_nil, handedOut, List.append_nil, List.append_nil]
    exact hl.congr hsame fun lock' h => .inl (isWanted_release h)
  | resume lock =>
    have hsame : l.SameRegistration (l.use (.resume lock)) := sameRegistration_resume l lock
    rw [hsame.letGo_eq_nil, handedOut, List.append_nil, List.append_nil]
    exact hl.congr hsame fun lock' h => .inl (isWanted_resume h)

theorem Consistent.run (hl : l.Consistent log gone) (uses : List (Use κ)) :
    (l.run uses).Consistent (log ++ l.handles uses) (gone ++ l.strays uses) := by
  induction uses generalizing l log gone with
  | nil =>
    rw [handles, strays, List.append_nil, List.append_nil]
    exact hl
  | cons u uses ih =>
    have hrest := ih (hl.use u)
    rw [List.append_assoc, List.append_assoc] at hrest
    exact hrest

end Consistency

/-! ### How long a lock is held -/

theorem isHeld_use (l : Locks κ) {u : Use κ} (hheld : l.isHeld lock = true)
    (hrelease : u ≠ .release lock) : (l.use u).isHeld lock = true := by
  cases u with
  | ask key => exact (isHeld_forKeypad l key lock).trans hheld
  | enter key => exact isHeld_acquire ((isHeld_forKeypad l key lock).trans hheld)
  | release lock' => exact isHeld_release_of_ne (fun h => hrelease (by rw [h])) hheld
  | resume lock' => exact isHeld_resume hheld

theorem Consistent.isRegistered_use {gone : List Nat} (hl : l.Consistent log gone) (u : Use κ)
    (hheld : l.isHeld lock = true) (h : l.isRegistered lock = true) :
    (l.use u).isRegistered lock = true := by
  cases u with
  | ask key => exact hl.isRegistered_forKeypad_of_held key hheld h
  | enter key =>
    have hasked := hl.isRegistered_forKeypad_of_held key hheld h
    exact ((sameRegistration_acquire _ _).isRegistered lock).trans hasked
  | release lock' => exact ((sameRegistration_release l lock').isRegistered lock).trans h
  | resume lock' => exact ((sameRegistration_resume l lock').isRegistered lock).trans h

/-- A held lock stays held and registered until it is given back. -/
theorem Consistent.kept_run {gone : List Nat} (hl : l.Consistent log gone) {uses : List (Use κ)}
    (hheld : l.isHeld lock = true) (h : l.isRegistered lock = true)
    (hrelease : .release lock ∉ uses) :
    (l.run uses).isHeld lock = true ∧ (l.run uses).isRegistered lock = true := by
  induction uses generalizing l log gone with
  | nil => exact ⟨hheld, h⟩
  | cons u uses ih =>
    obtain ⟨hfirst, hrest⟩ := not_or.mp (List.mem_cons.not.mp hrelease)
    exact ih (hl.use u) (isHeld_use l hheld (Ne.symm hfirst)) (hl.isRegistered_use u hheld h) hrest

theorem capacity_use (l : Locks κ) (u : Use κ) : (l.use u).capacity = l.capacity := by
  cases u with
  | ask key => exact capacity_forKeypad l key
  | enter key => exact (sameRegistration_acquire _ _).capacity.trans (capacity_forKeypad l key)
  | release lock => exact (sameRegistration_release l lock).capacity
  | resume lock => exact (sameRegistration_resume l lock).capacity

theorem capacity_run (l : Locks κ) (uses : List (Use κ)) : (l.run uses).capacity = l.capacity := by
  induction uses generalizing l with
  | nil => rfl
  | cons u uses ih => exact (ih (l.use u)).trans (l.capacity_use u)

omit [DecidableEq κ] in
/-- A negative size lets go of all free locks, as the size zero does. -/
theorem take_free (l : Locks κ) {maxsize : Int} (hcapacity : l.capacity = maxsize.toNat) :
    l.free.take (l.size + 1 - l.capacity) = l.free.take (l.size + 1 - maxsize).toNat := by
  have hfree : l.free.length ≤ l.size := List.length_filter_le _ _
  rcases Int.le_total 0 maxsize with hpos | hneg
  · rw [show ((l.size : Int) + 1 - maxsize).toNat = l.size + 1 - l.capacity by omega]
  · rw [List.take_of_length_le (by omega), List.take_of_length_le (by omega)]

/-- A held lock is the one registered for its keypad, from when it is taken until it is given back,
unless it was let go of before it was taken, while somebody waited for it. Among the other locks no
keypad has two held ones. When a lock is created, there is room for it, or all the others are held;
the ones let go of are the oldest free ones, as many as there are too many. -/
theorem held_locks_exclude_others (maxsize : Int) (uses : List (Use κ)) :
    let start : Locks κ := empty maxsize.toNat
    let l := start.run uses
    (∀ lock, l.isHeld lock = true → ∃ key, (key, lock) ∈ start.handles uses) ∧
    (∀ key lock, (key, lock) ∈ start.handles uses → l.isHeld lock = true →
      (l.registered.get? key = some lock ↔ lock ∉ start.strays uses) ∧
      (lock ∉ start.strays uses →
        (∀ lock', (key, lock') ∈ start.handles uses → l.isHeld lock' = true →
          lock' ∉ start.strays uses → lock' = lock) ∧
        ∀ after, .release lock ∉ after → (l.run after).isHeld lock = true ∧
          (l.run after).registered.get? key = some lock)) ∧
    ∀ key, l.registered.get? key = none →
      ((l.forKeypad key).2.size ≤ maxsize ∨
        ∀ e ∈ (l.forKeypad key).2.registered.entries, e.1 ≠ key →
          (l.forKeypad key).2.isHeld e.2 = true) ∧
      (l.forKeypad key).2.registered.entries =
        l.registered.entries.filter (· ∉ l.free.take (l.size + 1 - maxsize).toNat) ++
          [(key, (l.forKeypad key).1)] := by
  intro start l
  have hl : l.Consistent (start.handles uses) (start.strays uses) :=
    (consistent_empty maxsize.toNat).run uses
  have hcapacity : l.capacity = maxsize.toNat := capacity_run start uses
  have hregistered : ∀ {lock}, l.isHeld lock = true → lock ∉ start.strays uses →
      l.isRegistered lock = true := fun hheld hkept =>
    (hl.wanted _ (.inl hheld)).resolve_left hkept
  refine ⟨?_, ?_, ?_⟩
  · intro lock hheld
    rcases hl.wanted lock (.inl hheld) with hgone | hkept
    · exact hl.gone_mem lock hgone
    · obtain ⟨key, hkey⟩ := isRegistered_iff.mp hkept
      exact ⟨key, hl.registered_mem _ hkey⟩
  · intro key lock hmem hheld
    have hget : lock ∉ start.strays uses → l.registered.get? key = some lock := fun hkept =>
      hl.get?_of_registered hmem (hregistered hheld hkept)
    refine ⟨⟨fun h hgone => ?_, hget⟩, fun hkept => ⟨fun lock' hmem' hheld' hkept' => ?_, ?_⟩⟩
    · have hgone := hl.not_registered lock hgone
      rw [isRegistered_iff.mpr ⟨key, Registry.mem_of_get? h⟩] at hgone
      cases hgone
    · have hget' := hl.get?_of_registered hmem' (hregistered hheld' hkept')
      exact Option.some.inj (hget'.symm.trans (hget hkept))
    · intro after hrelease
      obtain ⟨hstill, hstays⟩ := hl.kept_run hheld (hregistered hheld hkept) hrelease
      exact ⟨hstill, (hl.run after).get?_of_registered (List.mem_append_left _ hmem) hstays⟩
  · intro key hnew
    have hentries := entries_forKeypad_new hl.distinct hnew
    rw [take_free l hcapacity, ← (forKeypad_new hnew).1] at hentries
    refine ⟨(size_forKeypad_new_le_or hl.distinct hnew).imp_left fun hsize => ?_, hentries⟩
    have hpos : 0 < (l.forKeypad key).2.size := by
      rw [size, Registry.size, hentries, List.length_append]
      exact Nat.lt_add_left _ Nat.one_pos
    omega

/-- A lock that is held when another one is created goes on to the one who waits for it, and stays
registered. -/
theorem held_locks_exclude_others_of_one :
    ((empty 1 : Locks Nat).run
        [.enter 1, .enter 1, .ask 2, .release 0, .resume 0, .enter 3]).registered.get? 1 =
      some 0 :=
  (((held_locks_exclude_others 1
    [.enter 1, .enter 1, .ask 2, .release 0, .resume 0, .enter 3]).2.1 1 0
    (by decide) (by decide)).1).mpr (by decide)

/-- The lock of a keypad is let go of after it has been given back, and before the one who waits for
it goes on. So he and the one who comes next hold two locks of this keypad. -/
theorem two_held_locks_of_waiting :
    let uses : List (Use Nat) := [.enter 1, .enter 1, .release 0, .ask 2, .resume 0, .enter 1]
    let l := (empty 1 : Locks Nat).run uses
    (1, 0) ∈ (empty 1 : Locks Nat).handles uses ∧ (1, 2) ∈ (empty 1 : Locks Nat).handles uses ∧
      l.isHeld 0 = true ∧ l.isHeld 2 = true ∧ l.registered.get? 1 = some 2 := by
  decide

end PocketCalculator.Locks
