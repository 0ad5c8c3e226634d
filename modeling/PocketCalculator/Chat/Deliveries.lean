/-!
# Repeated deliveries

An update may be delivered more than once. The bot remembers the keys of the last updates that it
has passed on, and drops an update whose key is among them.
-/

namespace PocketCalculator.Chat

/-- What tells updates apart. An edited message is another update than the message before. -/
inductive DeliveryKey where
  | message (chat id : Int) (edited : Option Int)
  | callback (id : List Char)
  | inline (id : List Char)
  deriving DecidableEq

/-- An update as it is delivered: its key, if it is of a kind that has one, and what its handler
yields when the update is passed on, a value or a failure. -/
structure Delivery (ε α : Type) where
  key : Option DeliveryKey
  handled : Except ε α

/-- The keys of the last updates passed on, the oldest first, at most `capacity` of them. -/
structure Deliveries where
  keys : List DeliveryKey
  capacity : Nat
  deriving DecidableEq

namespace Deliveries

def empty (capacity : Nat) : Deliveries := ⟨[], capacity⟩

/-- The list without its first element, if it is longer than the capacity. -/
def bounded (capacity : Nat) (keys : List DeliveryKey) : List DeliveryKey :=
  if capacity < keys.length then keys.tail else keys

/-- Whether an update with this key is passed on, and the memory afterwards. An update without a
key is always passed on. -/
def receive (d : Deliveries) (key : Option DeliveryKey) : Bool × Deliveries :=
  match key with
  | none => (true, d)
  | some key =>
    if d.keys.contains key then (false, d)
    else (true, { d with keys := bounded d.capacity (d.keys ++ [key]) })

/-- What comes of a delivery, and the memory afterwards: nothing if the update is dropped, otherwise
what its handler yields. The key is noted before the handler is called. -/
def pass {ε α : Type} (d : Deliveries) (u : Delivery ε α) : Except ε (Option α) × Deliveries :=
  let (isNew, d) := d.receive u.key
  (if isNew then some <$> u.handled else .ok none, d)

/-- An update that is dropped leaves the memory as it was. -/
theorem receive_of_mem (d : Deliveries) {key : DeliveryKey} (h : key ∈ d.keys) :
    d.receive (some key) = (false, d) := by
  simp [receive, h]

end Deliveries
end PocketCalculator.Chat
