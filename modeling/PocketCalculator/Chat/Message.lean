import PocketCalculator.Keypad.Key
import PocketCalculator.Text.Markup

/-!
# Messages

What the bot writes: messages with or without markup and with a keyboard, and the articles that
answer an inline query.
-/

namespace PocketCalculator.Chat

/-- The keyboard of a message: the keypad below it, the menu of commands in place of the user's
keyboard, or the removal of that menu. -/
inductive Keyboard where
  | keypad
  | menu
  | removed
  deriving DecidableEq

/-- A message: its text, whether the text is markup, and what happens to keyboards. -/
structure Message where
  text : List Char
  markup : Bool
  keyboard : Option Keyboard
  deriving DecidableEq

def Message.plain (text : List Char) : Message := ⟨text, false, none⟩

/-- An article offered for an inline query; `text` is what it sends. -/
structure Article where
  title : List Char
  description : List Char
  text : List Char
  markup : Bool
  deriving DecidableEq

/-! ### Keyboards -/

/-- The buttons of the keypad, row by row: the label of each, and the data that it sends. -/
def keypadButtons : List (List (List Char × List Char)) :=
  Key.layout.map fun row => row.map fun key => (key.label, Key.data key.code)

def menuButtons : List (List String) := [["/keypad"], ["/calc", "/help"]]

/-- The menu takes no more room than its buttons need. -/
def menuIsCompact : Bool := true

/-- What the empty input field says below the menu. -/
def menuHint : String := "Type an expression, e.g. /100+10%"

/-! ### Fixed messages -/

def greeting : Message :=
  ⟨("👋 Hi! I'm a calculator bot.\n\n" ++
    "Send an expression after a slash, e.g. <code>/100+10%</code>, " ++
    "or open the on-screen calculator with <code>/keypad</code>.\n\n" ++
    "Command list: <code>/help</code>. Show buttons: <code>/buttons</code>.").toList,
    true, some .removed⟩

def help : Message :=
  ⟨("📖 Commands\n\n" ++
    "🧮 Expressions:\n" ++
    "• <code>/calc (2+3)*4</code> — evaluate an expression\n" ++
    "• <code>/2+3*4</code> — same, without the command\n" ++
    "• Operators: <code>+ - * / %</code> and parentheses\n\n" ++
    "💯 Percent:\n" ++
    "• <code>100+10%</code> = 110, <code>100-10%</code> = 90 (percent of the left side)\n" ++
    "• <code>100*10%</code> = 10, <code>8%</code> = 0.08\n" ++
    "• <code>10%3</code> = 1 (remainder)\n\n" ++
    "🔢 Functions:\n" ++
    "• <code>/sq 12</code> — square, <code>/cube 3</code> — cube\n" ++
    "• <code>/fact 5</code> — factorial (0…170)\n\n" ++
    "⌨️ <code>/keypad</code> — on-screen calculator\n" ++
    "Inline: <code>@bot 100+10%</code> in any chat.\n\n" ++
    "Show buttons: <code>/buttons</code> · Hide: <code>/hide</code>").toList,
    true, some .removed⟩

def menuShown : Message :=
  ⟨"Keyboard on. Pick a command below:".toList, false, some .menu⟩

def menuHidden : Message :=
  ⟨"Keyboard hidden. To bring it back — /buttons.".toList, false, some .removed⟩

end PocketCalculator.Chat
