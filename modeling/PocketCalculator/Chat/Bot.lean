import PocketCalculator.Chat.Command
import PocketCalculator.Chat.Deliveries
import PocketCalculator.Chat.Keypads
import PocketCalculator.Settings

/-!
# The bot

Updates come in one by one; for each of them the bot finds out what is asked for, drops it if it was
delivered before, and answers. An update that asks for nothing is not remembered.
-/

namespace PocketCalculator.Chat

/-- What the bot finds where it runs: which texts are commands for it, and how deeply an expression
may be nested. -/
structure Platform where
  command? : List Char → Option Command
  nesting : Nat
  nesting_pos : 0 < nesting

namespace Platform

/-- The platform of a bot with this name. -/
def named (botName : List Char) : Platform :=
  ⟨Command.ofText? botName, Limits.standard.nesting, Limits.standard.nesting_pos⟩

/-- The limits of expressions, for ones of up to this many characters. -/
def limits (p : Platform) (length : Nat) : Limits := ⟨length, p.nesting, p.nesting_pos⟩

end Platform

/-- What comes in. A refusal is the reason for which edits fail while an update is handled. -/
inductive Update where
  | message (chat id : Int) (text caption : List Char) (edited : Option Int)
  | editedMessage
  | callback (id data : List Char) (source : Option (Place × List Char))
  | inline (id query : List Char)
  | elapsed

inductive Call where
  | send (place : Place) (message : Message)
  | edit (place : Place) (message : Message)
  | answerInline (id : List Char) (articles : List Article)
  | answerCallback (id : List Char)
  deriving DecidableEq

/-- The bot: where it runs, its settings, its keypads, the updates that it remembers, and the number
of the next message that it sends. -/
structure Bot where
  platform : Platform
  settings : Settings
  keypads : Keypads
  messages : Deliveries
  callbacks : Deliveries
  inlines : Deliveries
  nextMessage : Int

namespace Bot

/-- How many updates of each kind are remembered. -/
def memory : Nat := 1000

def start (platform : Platform) (settings : Settings) (firstMessage : Int) : Bot where
  platform := platform
  settings := settings
  keypads := .empty settings.sessions settings.sessions (platform.limits settings.limit)
  messages := .empty memory
  callbacks := .empty memory
  inlines := .empty memory
  nextMessage := firstMessage

def limits (b : Bot) : Limits := b.platform.limits b.settings.limit

/-- An effect on keypads as a call; an acknowledgement answers the callback with this id. -/
def callOf (id : List Char) : Effect → Call
  | .sent place message => .send place message
  | .edited place message => .edit place message
  | .acknowledged => .answerCallback id

def send (b : Bot) (chat : Int) (message : Message) : List Call × Bot :=
  ([.send ⟨chat, b.nextMessage⟩ message], { b with nextMessage := b.nextMessage + 1 })

/-! ### Requests -/

/-- Does what a message in a chat asks for. -/
def answer (b : Bot) (chat : Int) : Request → List Call × Bot
  | .greeting => b.send chat Chat.greeting
  | .help => b.send chat Chat.help
  | .showMenu => b.send chat menuShown
  | .hideMenu => b.send chat menuHidden
  | .keypad =>
    let (effects, keypads) := b.keypads.openAt ⟨chat, b.nextMessage⟩
    (effects.map (callOf []), { b with keypads := keypads, nextMessage := b.nextMessage + 1 })
  | .calc arguments => b.send chat (calcAnswer b.limits arguments)
  | .unary op command arguments =>
    b.send chat (unaryAnswer b.limits op command arguments)
  | .expression text =>
    match slashAnswer b.limits text with
    | some message => b.send chat message
    | none => ([], b)

/-! ### Updates -/

def elapse (b : Bot) (refusal : Option (List Char)) : List Call × Bot :=
  let (effects, keypads) := b.keypads.elapse refusal
  (effects.map (callOf []), { b with keypads := keypads })

def handle (b : Bot) (update : Update) (refusal : Option (List Char)) : List Call × Bot :=
  match update with
  | .message chat id text caption edited =>
    match Request.ofMessage? b.platform.command? text caption with
    | none => ([], b)
    | some request =>
      let (isNew, messages) := b.messages.receive (some (.message chat id edited))
      let b := { b with messages := messages }
      if isNew then b.answer chat request else ([], b)
  | .editedMessage => ([], b)
  | .callback id data source =>
    if Key.dataMark.isPrefixOf data then
      let (isNew, callbacks) := b.callbacks.receive (some (.callback id))
      let b := { b with callbacks := callbacks }
      if isNew then
        let (effects, keypads) := b.keypads.press data source refusal
        (effects.map (callOf id), { b with keypads := keypads })
      else ([], b)
    else ([], b)
  | .inline id query =>
    let (isNew, inlines) := b.inlines.receive (some (.inline id))
    let b := { b with inlines := inlines }
    if isNew then ([.answerInline id (inlineAnswer b.limits query)], b) else ([], b)
  | .elapsed => b.elapse refusal

end Bot
end PocketCalculator.Chat
