/-!
# Registries

A registry holds values under keys and remembers in which order the keys were last used. Bounded
memories are built on it: they let go of the oldest entries first.
-/

namespace PocketCalculator

/-- Values under keys, the least recently used first. -/
structure Registry (κ α : Type) where
  entries : List (κ × α)

namespace Registry

variable {κ α : Type} [DecidableEq κ]

def empty : Registry κ α := ⟨[]⟩

def keys (r : Registry κ α) : List κ := r.entries.map Prod.fst

def size (r : Registry κ α) : Nat := r.entries.length

def get? (r : Registry κ α) (k : κ) : Option α :=
  (r.entries.find? fun e => e.1 = k).map Prod.snd

def contains (r : Registry κ α) (k : κ) : Bool := (r.get? k).isSome

def erase (r : Registry κ α) (k : κ) : Registry κ α := ⟨r.entries.filter fun e => e.1 ≠ k⟩

/-- The value `v` under `k`, which becomes the most recently used key. -/
def put (r : Registry κ α) (k : κ) (v : α) : Registry κ α := ⟨(r.erase k).entries ++ [(k, v)]⟩

/-- The value `v` in place of the one under `k`, if there is one; the order is as before. -/
def replace (r : Registry κ α) (k : κ) (v : α) : Registry κ α :=
  ⟨r.entries.map fun e => if e.1 = k then (k, v) else e⟩

/-- The registry without its least recently used entry, if it has more than `capacity`. -/
def trimTo (r : Registry κ α) (capacity : Nat) : Registry κ α :=
  if capacity < r.size then ⟨r.entries.tail⟩ else r

/-! ### What the operations do to the keys -/

theorem keys_erase (r : Registry κ α) (k : κ) : (r.erase k).keys = r.keys.filter (· ≠ k) := by
  simp only [erase, keys, List.filter_map]
  rfl

theorem keys_put (r : Registry κ α) (k : κ) (v : α) :
    (r.put k v).keys = r.keys.filter (· ≠ k) ++ [k] := by
  rw [← keys_erase]
  simp only [put, keys, List.map_append, List.map_cons, List.map_nil]

theorem keys_replace (r : Registry κ α) (k : κ) (v : α) : (r.replace k v).keys = r.keys := by
  simp only [replace, keys, List.map_map]
  apply List.map_congr_left
  intro e _
  simp only [Function.comp]
  split
  · next h => exact h.symm
  · rfl

theorem get?_put_self (r : Registry κ α) (k : κ) (v : α) : (r.put k v).get? k = some v := by
  have hnone : (r.erase k).entries.find? (fun e => e.1 = k) = none := by
    rw [List.find?_eq_none]
    intro e he
    simp only [erase, List.mem_filter] at he
    simpa using he.2
  simp only [get?, put, List.find?_append, hnone]
  simp

end Registry
end PocketCalculator
