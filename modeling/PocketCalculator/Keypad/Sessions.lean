import PocketCalculator.Keypad.State
import PocketCalculator.Registry

/-!
# Sessions

The states of the open keypads. Only the most recently used ones are kept; a keypad whose state is
gone is set up again from what its message shows.
-/

namespace PocketCalculator

/-- The states of keypads, at most `capacity` of them, and the limits of new ones. -/
structure Sessions (κ : Type) where
  states : Registry κ Keypad
  capacity : Nat
  limits : Limits

namespace Sessions

variable {κ : Type} [DecidableEq κ]

/-- The longest line of new keypads: a setting of none or of zero means the standard one, and a
negative one leaves no room. -/
def limitOf (setting : Option Int) : Nat :=
  match setting with
  | none => standardLimit
  | some n => if n = 0 then standardLimit else n.toNat

def empty (capacity : Nat) (limits : Limits) : Sessions κ := ⟨.empty, capacity, limits⟩

/-- The state of a keypad, which becomes the most recently used one. If there is none, it is set up
from what is shown. -/
def get (s : Sessions κ) (key : κ) (shown : List Char) : Keypad × Sessions κ :=
  let state := (s.states.get? key).getD (.ofDisplay s.limits shown)
  (state, { s with states := (s.states.put key state).trimTo s.capacity })

def peek (s : Sessions κ) (key : κ) : Option Keypad := s.states.get? key

/-- The new state of a keypad, if its old one is kept. -/
def update (s : Sessions κ) (key : κ) (state : Keypad) : Sessions κ :=
  { s with states := s.states.replace key state }

def drop (s : Sessions κ) (key : κ) : Sessions κ := { s with states := s.states.erase key }

def contains (s : Sessions κ) (key : κ) : Bool := s.states.contains key

/-- Presses keys on a keypad: the answers to the presses, and its state after them. -/
def press (s : Sessions κ) (key : κ) (shown : List Char) (codes : List (List Char)) :
    (List Bool × Keypad) × Sessions κ :=
  let (state, s) := s.get key shown
  let (answers, state) := codes.foldl
    (fun (answers, state) code =>
      let (state, answer) := state.press code
      (answers ++ [answer], state)) (([] : List Bool), state)
  ((answers, state), s.update key state)

end Sessions
end PocketCalculator
