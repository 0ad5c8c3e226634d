import PocketCalculator.Chat.Answers

/-!
# Commands

A command is a word that starts with a slash, at the start of a message; the rest of the message
are its arguments. Which messages are commands for the bot is up to the platform. A message that is
none of the commands that the bot knows, but starts with a slash and a digit, a sign, a point or a
parenthesis, is an expression.
-/

namespace PocketCalculator.Chat

/-- A command for the bot: its name, and its arguments, perhaps empty. -/
structure Command where
  name : List Char
  arguments : List Char
  deriving DecidableEq

/-- The command that a text is to a bot with this name. Behind its own name a command may mention
the bot that it is meant for, in any case. -/
def Command.ofText? (botName text : List Char) : Option Command :=
  let text := trimStart text
  match text.takeWhile (!isBlank ·) with
  | '/' :: word =>
    let mention := (word.dropWhile (· ≠ '@')).drop 1
    if mention.isEmpty || mention.map Char.toLower == botName.map Char.toLower then
      some ⟨word.takeWhile (· ≠ '@'), trimStart (text.dropWhile (!isBlank ·))⟩
    else none
  | _ => none

/-- What a message asks for. -/
inductive Request where
  | greeting
  | help
  | showMenu
  | hideMenu
  | keypad
  | calc (arguments : List Char)
  | unary (op : Unary) (command arguments : List Char)
  | expression (text : List Char)
  deriving DecidableEq

def Request.ofCommand? (c : Command) : Option Request :=
  match String.ofList c.name with
  | "start" => some .greeting
  | "help" => some .help
  | "buttons" => some .showMenu
  | "hide" => some .hideMenu
  | "keypad" => some .keypad
  | "calc" => some (.calc c.arguments)
  | _ => (unaryCommand? c.name).map fun op => .unary op c.name c.arguments

def startsExpression (c : Char) : Bool :=
  c = '+' || c = '-' || ('0' ≤ c && c ≤ '9') || c = '(' || c = '.'

def isSlashExpression : List Char → Bool
  | '/' :: c :: _ => startsExpression c
  | _ => false

/-- What a message with this text asks for, or with this caption, if it has no text; `command?` says
which texts are commands. -/
def Request.ofMessage? (command? : List Char → Option Command) (text caption : List Char) :
    Option Request :=
  match (command? (if text.isEmpty then caption else text)).bind Request.ofCommand? with
  | some request => some request
  | none => if isSlashExpression text then some (.expression text) else none

end PocketCalculator.Chat
