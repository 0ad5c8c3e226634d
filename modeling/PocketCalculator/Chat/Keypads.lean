import PocketCalculator.Chat.Message
import PocketCalculator.Keypad.Locks
import PocketCalculator.Keypad.Sessions

/-!
# Keypads in chats

Each message with a keypad is a calculator of its own. Pressing a key changes its state, and the
message is edited to show it. An error is shown only for a while: an alarm is set that clears it,
unless something has been pressed in the meantime.

The lock of a keypad is held from the start of a press to its end, and presses come one after the
other, so of the locks only the registration shows.
-/

namespace PocketCalculator.Chat

structure Place where
  chat : Int
  message : Int
  deriving DecidableEq

/-- A keypad that shows an error, as of a revision of its state. -/
structure Alarm where
  place : Place
  revision : Nat
  deriving DecidableEq

/-- What the outside sees of a step. -/
inductive Effect where
  | sent (place : Place) (message : Message)
  | edited (place : Place) (message : Message)
  | acknowledged
  deriving DecidableEq

/-- All keypads: their states and locks, and the alarms that have not gone off, in the order in
which they were set. -/
structure Keypads where
  sessions : Sessions Place
  locks : Locks Place
  alarms : List Alarm

namespace Keypads

def empty (sessions locks : Nat) (limits : Limits) : Keypads :=
  ⟨.empty sessions limits, .empty locks, []⟩

def render (state : Keypad) : Message := ⟨Markup.code state.display, true, some .keypad⟩

/-- A new keypad is sent as the message at a place. -/
def openAt (k : Keypads) (place : Place) : List Effect × Keypads :=
  ([.sent place (render (.fresh k.sessions.limits))],
    { k with sessions := (k.sessions.get place []).2 })

/-! ### Redrawing -/

/-- The text has the pattern in it somewhere. -/
def mentions (pattern : List Char) : List Char → Bool
  | [] => pattern.isEmpty
  | c :: cs => pattern.isPrefixOf (c :: cs) || mentions pattern cs

/-- An edit was refused because the message is gone. -/
def isGone (refusal : List Char) : Bool := mentions "message to edit not found".toList refusal

/-- Shows a state in its message. If the edit is refused because the message is gone, the state is
forgotten; any other refusal changes nothing. -/
def redraw (k : Keypads) (place : Place) (state : Keypad) (refusal : Option (List Char)) :
    List Effect × Keypads :=
  let k :=
    match refusal with
    | some reason => if isGone reason then { k with sessions := k.sessions.drop place } else k
    | none => k
  ([.edited place (render state)], k)

/-! ### Pressing -/

/-- A key is pressed on the keypad at a place, whose message shows this text. -/
def pressAt (k : Keypads) (place : Place) (shown code : List Char)
    (refusal : Option (List Char)) : List Effect × Keypads :=
  let locks := (k.locks.forKeypad place).2
  let (state, sessions) := k.sessions.get place shown
  let (state, changed) := state.press code
  let k := { k with sessions := sessions.update place state, locks := locks }
  let (effects, k) := if changed then k.redraw place state refusal else ([], k)
  let k :=
    if changed && state.phase = .failure then
      { k with alarms := k.alarms ++ [⟨place, state.revision⟩] }
    else k
  (effects ++ [.acknowledged], k)

/-- A button with this data is pressed, below the message at a place with this text, if it is
known. Data of no key, and presses without a message, are only acknowledged. -/
def press (k : Keypads) (data : List Char) (source : Option (Place × List Char))
    (refusal : Option (List Char)) : List Effect × Keypads :=
  let code := Key.codeOfData data
  match source with
  | some (place, shown) =>
    if code.isEmpty then ([.acknowledged], k) else k.pressAt place shown code refusal
  | none => ([.acknowledged], k)

/-! ### Alarms -/

/-- An alarm goes off: the error is cleared, if it is still the state that the alarm was set for. -/
def ring (k : Keypads) (alarm : Alarm) (refusal : Option (List Char)) : List Effect × Keypads :=
  let k := { k with locks := (k.locks.forKeypad alarm.place).2 }
  match k.sessions.peek alarm.place with
  | none => ([], k)
  | some state =>
    if state.revision ≠ alarm.revision then ([], k)
    else
      let (state, changed) := state.clear
      let k := { k with sessions := k.sessions.update alarm.place state }
      if changed then k.redraw alarm.place state refusal else ([], k)

/-- All alarms go off, in the order in which they were set. -/
def elapse (k : Keypads) (refusal : Option (List Char)) : List Effect × Keypads :=
  k.alarms.foldl
    (fun (effects, k) alarm =>
      let (more, k) := k.ring alarm refusal
      (effects ++ more, k))
    ([], { k with alarms := [] })

/-! ### Runs -/

/-- What can happen to keypads. An edit in this step is refused for the reason given, if one is. -/
inductive Event where
  | opened (place : Place)
  | pressed (data : List Char) (source : Option (Place × List Char))
      (refusal : Option (List Char))
  | elapsed (refusal : Option (List Char))

def step (k : Keypads) : Event → List Effect × Keypads
  | .opened place => k.openAt place
  | .pressed data source refusal => k.press data source refusal
  | .elapsed refusal => k.elapse refusal

end Keypads
end PocketCalculator.Chat
