import Mathlib.Data.List.DropRight
import Mathlib.Data.List.Nodup
import PocketCalculator.Proofs.Chat.Redelivery
import PocketCalculator.Proofs.Outcome

/-!
# What the memory of deliveries holds

Over any sequence of deliveries the memory is the end of the list of all keys that have been passed
on (`memory_is_recent`): as many as the capacity, distinct, and in order. It is kept by every
delivery, and whether a handler fails does not matter to it.
-/

namespace PocketCalculator.Chat.Deliveries

variable {ε α : Type} {d : Deliveries} {u u' : Delivery ε α} {us us' : List (Delivery ε α)}
  {key : DeliveryKey} {passed : List DeliveryKey}

/-! ### One delivery -/

/-- The key of a delivery that is passed on. -/
def passedKey? (d : Deliveries) (u : Delivery ε α) : Option DeliveryKey :=
  match (d.pass u).1 with
  | .ok none => none
  | _ => u.key

theorem pass_of_key_none (d : Deliveries) (h : u.key = none) :
    d.pass u = (some <$> u.handled, d) := by
  simp only [pass, h]
  rfl

theorem pass_of_mem (hkey : u.key = some key) (h : key ∈ d.keys) : d.pass u = (.ok none, d) := by
  simp only [pass, hkey, receive_of_mem d h]
  rfl

theorem pass_of_not_mem (hkey : u.key = some key) (h : key ∉ d.keys) :
    d.pass u =
      (some <$> u.handled, { d with keys := bounded d.capacity (d.keys ++ [key]) }) := by
  have hnew : d.keys.contains key = false := by simpa using h
  simp only [pass, hkey, receive, hnew]
  rfl

theorem passedKey?_of_passed (h : (d.pass u).1 = some <$> u.handled) : d.passedKey? u = u.key := by
  unfold passedKey?
  rw [h]
  cases u.handled with
  | error e => rfl
  | ok a => rfl

theorem passedKey?_of_mem (hkey : u.key = some key) (h : key ∈ d.keys) :
    d.passedKey? u = none := by
  unfold passedKey?
  rw [pass_of_mem hkey h]

/-- The memory does not depend on what the handler yields. -/
theorem memory_pass_congr (d : Deliveries) (h : u.key = u'.key) : (d.pass u).2 = (d.pass u').2 := by
  show (d.receive u.key).2 = (d.receive u'.key).2
  rw [h]

/-! ### The end of a list -/

/-- To add one element to the last ones and let go of the first is to take the last ones again. -/
theorem bounded_rtake (capacity : ℕ) (passed : List DeliveryKey) (key : DeliveryKey) :
    bounded capacity (passed.rtake capacity ++ [key]) = (passed ++ [key]).rtake capacity := by
  have hdrop : passed.rtake capacity ++ [key] =
      (passed ++ [key]).drop (passed.length - capacity) :=
    (List.drop_append_of_le_length (Nat.sub_le ..)).symm
  have hlength : (passed.rtake capacity ++ [key]).length =
      passed.length - (passed.length - capacity) + 1 := by
    rw [List.length_append, List.rtake, List.length_drop, List.length_singleton]
  rw [bounded, hlength, hdrop, List.rtake, List.length_append, List.length_singleton]
  split
  · next hfull =>
    rw [List.tail_drop, show passed.length + 1 - capacity = passed.length - capacity + 1 by omega]
  · next hroom =>
    rw [show passed.length + 1 - capacity = passed.length - capacity by omega]

/-- The memory holds the last keys of those that have been passed on. -/
structure Holds (d : Deliveries) (passed : List DeliveryKey) : Prop where
  keys : d.keys = passed.rtake d.capacity
  nodup : d.keys.Nodup

theorem holds_empty (capacity : ℕ) : (empty capacity).Holds [] :=
  ⟨(List.rtake_nil _).symm, List.nodup_nil⟩

theorem capacity_pass (d : Deliveries) (u : Delivery ε α) : (d.pass u).2.capacity = d.capacity :=
  capacity_receive d u.key

/-- Every delivery keeps it so. -/
theorem Holds.pass (h : d.Holds passed) (u : Delivery ε α) :
    (d.pass u).2.Holds (passed ++ (d.passedKey? u).toList) := by
  cases hkey : u.key with
  | none =>
    have hpass := d.pass_of_key_none hkey
    rw [passedKey?_of_passed (congrArg Prod.fst hpass), hpass, hkey]
    simpa using h
  | some key =>
    by_cases hmem : key ∈ d.keys
    · rw [passedKey?_of_mem hkey hmem, pass_of_mem hkey hmem]
      simpa using h
    · have hpass := pass_of_not_mem hkey hmem
      rw [passedKey?_of_passed (congrArg Prod.fst hpass), hpass, hkey]
      have hnodup : (d.keys ++ [key]).Nodup := by
        rw [← List.concat_eq_append]
        exact List.Nodup.concat hmem h.nodup
      refine ⟨?_, ?_⟩
      · show bounded d.capacity (d.keys ++ [key]) = _
        rw [h.keys]
        exact bounded_rtake ..
      · show (bounded d.capacity (d.keys ++ [key])).Nodup
        unfold bounded
        split
        · exact hnodup.sublist (List.tail_sublist _)
        · exact hnodup

/-! ### Runs -/

def run (d : Deliveries) (us : List (Delivery ε α)) : Deliveries :=
  us.foldl (fun d u => (d.pass u).2) d

/-- The keys that are passed on, in order. -/
def passedKeys (d : Deliveries) : List (Delivery ε α) → List DeliveryKey
  | [] => []
  | u :: us => (d.passedKey? u).toList ++ (d.pass u).2.passedKeys us

theorem Holds.run (h : d.Holds passed) (us : List (Delivery ε α)) :
    (d.run us).Holds (passed ++ d.passedKeys us) := by
  induction us generalizing d passed with
  | nil =>
    rw [passedKeys, List.append_nil]
    exact h
  | cons u us ih =>
    rw [passedKeys, ← List.append_assoc]
    exact ih (h.pass u)

theorem capacity_run (d : Deliveries) (us : List (Delivery ε α)) :
    (d.run us).capacity = d.capacity := by
  induction us generalizing d with
  | nil => rfl
  | cons u us ih => exact (ih _).trans (d.capacity_pass u)

theorem run_congr (h : us.map (·.key) = us'.map (·.key)) : d.run us = d.run us' := by
  induction us generalizing d us' with
  | nil => rw [List.map_eq_nil_iff.mp h.symm]
  | cons u us ih =>
    obtain ⟨u', us', rfl, hkey, hrest⟩ := List.map_eq_cons_iff.mp h.symm
    show ((d.pass u).2.run us) = ((d.pass u').2.run us')
    rw [d.memory_pass_congr hkey, ih hrest.symm]

/-- The memory is always the last keys passed on, and by it a delivery is dropped or passed on: a
delivery with a key comes to nothing if its key is one of them, otherwise it comes to what its
handler yields, and its key is added. -/
theorem memory_is_recent (capacity : ℕ) (before : List (Delivery ε α)) (u : Delivery ε α) :
    let d := (empty capacity).run before
    let passed := (empty capacity).passedKeys before
    d = ⟨passed.rtake capacity, capacity⟩ ∧ d.keys.Nodup ∧
      (u.key = none → d.pass u = (some <$> u.handled, d)) ∧
      (∀ key, u.key = some key →
        d.pass u = if key ∈ passed.rtake capacity then (.ok none, d)
          else (some <$> u.handled, ⟨(passed ++ [key]).rtake capacity, capacity⟩)) ∧
      ∀ before' : List (Delivery ε α), before'.map (·.key) = before.map (·.key) →
        (empty capacity).run before' = d := by
  intro d passed
  have hholds : d.Holds passed := (holds_empty capacity).run before
  have hcapacity : d.capacity = capacity := capacity_run _ before
  have hkeys : d.keys = passed.rtake capacity := by rw [hholds.keys, hcapacity]
  have hd : d = ⟨passed.rtake capacity, capacity⟩ := by rw [← hkeys, ← hcapacity]
  refine ⟨hd, hholds.nodup, d.pass_of_key_none, fun key hkey => ?_, fun before' => run_congr⟩
  split
  · next hmem => exact pass_of_mem hkey (hkeys ▸ hmem)
  · next hmem => rw [pass_of_not_mem hkey (hkeys ▸ hmem), hkeys, hcapacity, bounded_rtake]

/-- Of three keys the first one has been let go of, after a copy of it was dropped and a handler
failed; now it is passed on again. -/
theorem memory_is_recent_of_third :
    let a := DeliveryKey.callback ['a']
    let b := DeliveryKey.callback ['b']
    let c := DeliveryKey.inline ['a']
    let before : List (Delivery Unit ℕ) :=
      [⟨some a, .ok 1⟩, ⟨some b, .error ()⟩, ⟨some a, .ok 2⟩, ⟨none, .ok 3⟩, ⟨some c, .ok 4⟩]
    (empty 2).passedKeys before = [a, b, c] ∧ (empty 2).run before = ⟨[b, c], 2⟩ ∧
      ((empty 2).run before).pass (⟨some a, .error ()⟩ : Delivery Unit ℕ) =
        (.error (), ⟨[c, a], 2⟩) := by
  intro a b c before
  have hpassed : (empty 2).passedKeys before = [a, b, c] := by decide
  obtain ⟨hmemory, _, _, hkeyed, _⟩ := memory_is_recent 2 before ⟨some a, .error ()⟩
  refine ⟨hpassed, hmemory.trans ?_, (hkeyed a rfl).trans ?_⟩
  · rw [hpassed]
    rfl
  · rw [hpassed]
    rfl

end PocketCalculator.Chat.Deliveries
