import PocketCalculator.Registry

/-!
# Locks

One lock for each keypad, so that its keys take effect one after the other. Locks have numbers in
the order of their creation. To take a lock that is held one waits for it. A lock that is given back
is free until the one who waits for it goes on. Free locks that have not been used for long are let
go of, whether or not somebody waits for them; a lock that is held stays registered.
-/

namespace PocketCalculator

/-- The registered locks, the numbers of the held ones, of the ones that are waited for (once for
each who waits), and how many have been created. -/
structure Locks (κ : Type) where
  registered : Registry κ Nat
  held : List Nat
  waiting : List Nat
  created : Nat
  capacity : Nat

namespace Locks

variable {κ : Type} [DecidableEq κ]

def empty (capacity : Nat) : Locks κ := ⟨.empty, [], [], 0, capacity⟩

def isHeld (l : Locks κ) (lock : Nat) : Bool := l.held.contains lock

def size (l : Locks κ) : Nat := l.registered.size

/-- The entries without the first `excess` ones that are free; the lock of `key` counts as not
free. -/
def evict (l : Locks κ) (key : κ) : Nat → List (κ × Nat) → List (κ × Nat)
  | _, [] => []
  | 0, entries => entries
  | excess + 1, e :: entries =>
    if e.1 ≠ key && !l.isHeld e.2 then l.evict key excess entries
    else e :: l.evict key (excess + 1) entries

/-- The lock of a keypad, which becomes the most recently used one. If there is none, one is
created, and free ones above the capacity are let go of, the oldest first. -/
def forKeypad (l : Locks κ) (key : κ) : Nat × Locks κ :=
  match l.registered.get? key with
  | some lock => (lock, { l with registered := l.registered.put key lock })
  | none =>
    let grown := l.registered.put key l.created
    let kept := l.evict key (grown.size - l.capacity) grown.entries
    (l.created, { l with registered := ⟨kept⟩, created := l.created + 1 })

/-- Takes a lock, or waits for it if it is held or others wait for it. -/
def acquire (l : Locks κ) (lock : Nat) : Locks κ :=
  if l.isHeld lock || l.waiting.contains lock then { l with waiting := l.waiting ++ [lock] }
  else { l with held := lock :: l.held }

/-- Gives a lock back, if it is held. Nobody who waits for it has it yet. -/
def release (l : Locks κ) (lock : Nat) : Option (Locks κ) :=
  if l.isHeld lock then some { l with held := l.held.erase lock } else none

/-- The first one who waits for a lock goes on and takes it, if it is free. -/
def resume (l : Locks κ) (lock : Nat) : Locks κ :=
  if !l.isHeld lock && l.waiting.contains lock then
    { l with held := lock :: l.held, waiting := l.waiting.erase lock }
  else l

end Locks
end PocketCalculator
