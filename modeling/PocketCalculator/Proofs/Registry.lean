import PocketCalculator.Registry

/-!
# Lookups in registries

What is found under a key after an operation, as long as no key is registered twice.
-/

namespace PocketCalculator.Registry

variable {κ α : Type} [DecidableEq κ] {r : Registry κ α} {k k' : κ} {v : α}

/-- No key is registered twice. -/
def Distinct (r : Registry κ α) : Prop := r.keys.Nodup

/-- Every registered value has the property. -/
def All (P : α → Prop) (r : Registry κ α) : Prop := ∀ e ∈ r.entries, P e.2

theorem get?_cons (e : κ × α) (es : List (κ × α)) :
    (Registry.mk (e :: es)).get? k = if e.1 = k then some e.2 else (Registry.mk es).get? k := by
  unfold get?
  rw [List.find?_cons]
  by_cases h : e.1 = k
  · rw [if_pos h, decide_eq_true h]
    rfl
  · rw [if_neg h, decide_eq_false h]

theorem mem_of_get? (h : r.get? k = some v) : (k, v) ∈ r.entries := by
  unfold get? at h
  obtain ⟨e, he, rfl⟩ := Option.map_eq_some_iff.mp h
  have hkey := List.find?_some he
  rw [decide_eq_true_eq] at hkey
  rw [← hkey]
  exact List.mem_of_find?_eq_some he

theorem get?_of_mem (hr : r.Distinct) (h : (k, v) ∈ r.entries) : r.get? k = some v := by
  obtain ⟨entries⟩ := r
  induction entries with
  | nil => cases h
  | cons e es ih =>
    obtain ⟨hhead, htail⟩ := List.nodup_cons.mp hr
    rw [get?_cons]
    rcases List.mem_cons.mp h with rfl | h
    · exact if_pos rfl
    · have hne : e.1 ≠ k := by
        rintro rfl
        exact hhead (List.mem_map.mpr ⟨_, h, rfl⟩)
      rw [if_neg hne]
      exact ih htail h

theorem ne_of_get?_eq_none (h : r.get? k = none) : ∀ e ∈ r.entries, e.1 ≠ k := by
  unfold get? at h
  rw [Option.map_eq_none_iff, List.find?_eq_none] at h
  intro e he
  simpa using h e he

theorem contains_iff : r.contains k = true ↔ ∃ v, r.get? k = some v :=
  Option.isSome_iff_exists

/-! ### Lookups -/

theorem get?_erase_self (r : Registry κ α) (k : κ) : (r.erase k).get? k = none := by
  unfold get? erase
  rw [Option.map_eq_none_iff, List.find?_eq_none]
  intro e he
  simpa using (List.mem_filter.mp he).2

theorem get?_erase_of_ne (h : k' ≠ k) : (r.erase k).get? k' = r.get? k' := by
  obtain ⟨entries⟩ := r
  unfold erase
  induction entries with
  | nil => rfl
  | cons e es ih =>
    rw [get?_cons, ← ih, List.filter_cons]
    split
    · rw [get?_cons]
    · next hkey =>
      have hk : e.1 = k := by simpa using hkey
      rw [if_neg fun h' => h (h'.symm.trans hk)]

theorem get?_append_of_ne (h : k' ≠ k) (es : List (κ × α)) :
    (Registry.mk (es ++ [(k, v)])).get? k' = (Registry.mk es).get? k' := by
  induction es with
  | nil => rw [List.nil_append, get?_cons, if_neg h.symm]
  | cons e es ih => rw [List.cons_append, get?_cons, get?_cons, ih]

theorem get?_append_self {es : List (κ × α)} (h : ∀ e ∈ es, e.1 ≠ k) :
    (Registry.mk (es ++ [(k, v)])).get? k = some v := by
  induction es with
  | nil => rw [List.nil_append, get?_cons, if_pos rfl]
  | cons e es ih =>
    rw [List.cons_append, get?_cons, if_neg (h e (List.mem_cons_self ..))]
    exact ih fun e' he' => h e' (List.mem_cons_of_mem e he')

/-- What has just been put is not let go of, if there is room for anything. -/
theorem get?_trimTo_put {capacity : Nat} (hcapacity : 0 < capacity) (r : Registry κ α) (k : κ)
    (v : α) : ((r.put k v).trimTo capacity).get? k = some v := by
  have hother : ∀ e ∈ (r.erase k).entries, e.1 ≠ k := fun e he => by
    simpa using (List.mem_filter.mp he).2
  unfold trimTo size put
  split
  · next hsize =>
    cases hentries : (r.erase k).entries with
    | nil =>
      rw [hentries, List.nil_append, List.length_singleton] at hsize
      omega
    | cons e es =>
      rw [hentries] at hother
      exact get?_append_self fun e' he' => hother e' (List.mem_cons_of_mem e he')
  · exact get?_append_self hother

theorem get?_put_of_ne (h : k' ≠ k) : (r.put k v).get? k' = r.get? k' := by
  rw [← get?_erase_of_ne (r := r) h]
  exact get?_append_of_ne h _

theorem get?_replace_self (r : Registry κ α) (k : κ) (v : α) :
    (r.replace k v).get? k = (r.get? k).map fun _ => v := by
  obtain ⟨entries⟩ := r
  unfold replace
  induction entries with
  | nil => rfl
  | cons e es ih =>
    rw [List.map_cons, get?_cons, get?_cons]
    by_cases hkey : e.1 = k
    · simp [hkey]
    · simp only [if_neg hkey]
      exact ih

theorem get?_replace_of_ne (h : k' ≠ k) : (r.replace k v).get? k' = r.get? k' := by
  obtain ⟨entries⟩ := r
  unfold replace
  induction entries with
  | nil => rfl
  | cons e es ih =>
    rw [List.map_cons, get?_cons, get?_cons, ih]
    by_cases hkey : e.1 = k
    · rw [if_pos hkey, hkey, if_neg h.symm, if_neg h.symm]
    · rw [if_neg hkey]

theorem replace_replace (r : Registry κ α) (k : κ) (v v' : α) :
    (r.replace k v).replace k v' = r.replace k v' := by
  simp only [replace, List.map_map, mk.injEq]
  refine List.map_congr_left fun e _ => ?_
  by_cases h : e.1 = k <;> simp [h]

/-- A value in its own place changes nothing. -/
theorem replace_self (h : ∀ e ∈ r.entries, e.1 = k → e.2 = v) : r.replace k v = r := by
  obtain ⟨entries⟩ := r
  simp only [replace, mk.injEq]
  refine (List.map_congr_left fun e he => ?_).trans (List.map_id entries)
  split
  · next hkey => rw [← hkey, ← h e he hkey]; rfl
  · rfl

/-- What is left after trimming is found as before. -/
theorem get?_of_trimTo {capacity : Nat} (hr : r.Distinct)
    (h : (r.trimTo capacity).get? k = some v) : r.get? k = some v := by
  obtain ⟨entries⟩ := r
  unfold trimTo at h
  split at h
  · cases entries with
    | nil => exact h
    | cons e es =>
      have hmem : (k, v) ∈ es := mem_of_get? h
      have hne : e.1 ≠ k := by
        rintro rfl
        exact (List.nodup_cons.mp hr).1 (List.mem_map.mpr ⟨_, hmem, rfl⟩)
      rw [get?_cons, if_neg hne]
      exact h
  · exact h

/-! ### Distinct keys -/

theorem Distinct.erase (hr : r.Distinct) (k : κ) : (r.erase k).Distinct := by
  unfold Distinct
  rw [keys_erase]
  exact List.Nodup.sublist List.filter_sublist hr

theorem Distinct.put (hr : r.Distinct) (k : κ) (v : α) : (r.put k v).Distinct := by
  unfold Distinct
  rw [keys_put, ← keys_erase]
  refine List.pairwise_append.mpr ⟨hr.erase k, List.pairwise_singleton _ k, ?_⟩
  intro a ha b hb
  rw [keys_erase] at ha
  rw [List.mem_singleton.mp hb]
  simpa using (List.mem_filter.mp ha).2

theorem Distinct.replace (hr : r.Distinct) (k : κ) (v : α) : (r.replace k v).Distinct := by
  unfold Distinct
  rw [keys_replace]
  exact hr

omit [DecidableEq κ] in
theorem Distinct.trimTo (hr : r.Distinct) (capacity : Nat) : (r.trimTo capacity).Distinct := by
  unfold Registry.trimTo
  split
  · exact List.Nodup.sublist (List.Sublist.map _ (List.tail_sublist _)) hr
  · exact hr

/-! ### Values -/

section All

variable {P : α → Prop}

theorem All.get? (hr : r.All P) (h : r.get? k = some v) : P v := hr _ (mem_of_get? h)

theorem All.erase (hr : r.All P) (k : κ) : (r.erase k).All P :=
  fun e he => hr e (List.mem_filter.mp he).1

theorem All.put (hr : r.All P) (k : κ) (hv : P v) : (r.put k v).All P := by
  intro e he
  rcases List.mem_append.mp he with he | he
  · exact hr.erase k e he
  · rw [List.mem_singleton.mp he]
    exact hv

theorem All.replace (hr : r.All P) (k : κ) (hv : P v) : (r.replace k v).All P := by
  intro e he
  obtain ⟨e', he', rfl⟩ := List.mem_map.mp he
  split
  · exact hv
  · exact hr e' he'

omit [DecidableEq κ] in
theorem All.trimTo (hr : r.All P) (capacity : Nat) : (r.trimTo capacity).All P := by
  unfold Registry.trimTo
  split
  · exact fun e he => hr e (List.mem_of_mem_tail he)
  · exact hr

end All

end PocketCalculator.Registry
