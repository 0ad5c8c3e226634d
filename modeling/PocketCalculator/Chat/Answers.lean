import PocketCalculator.Chat.Message
import PocketCalculator.Display.Shown
import PocketCalculator.Expression.Evaluate
import PocketCalculator.Expression.Unary

/-!
# Answers

What the bot answers to an expression: after the command, after a bare slash, as the argument of a
unary command, and in an inline query.
-/

namespace PocketCalculator.Chat

def calcUsage : List Char :=
  "Usage: /calc <expression>\nExample: /calc (2+3)*100-50%".toList

/-- An expression and its result, or what is wrong with it. -/
def calculation (limits : Limits) (expression : List Char) : List Char :=
  let result : Except Fault (List Char) := do
    let x ← evaluate limits expression
    Display.shown x
  match result with
  | .ok text => expression ++ " = ".toList ++ text
  | .error fault => fault.text.toList

def calcAnswer (limits : Limits) (arguments : List Char) : Message :=
  let expression := trim arguments
  .plain (if expression.isEmpty then calcUsage else calculation limits expression)

/-- The answer to a message that is an expression after one sign. There is none if nothing follows
the sign. -/
def slashAnswer (limits : Limits) (text : List Char) : Option Message :=
  let expression := trim ((trim text).drop 1)
  if expression.isEmpty then none else some (.plain (calculation limits expression))

/-! ### Unary commands -/

def unaryCommand? (name : List Char) : Option Unary :=
  match String.ofList name with
  | "sq" => some .square
  | "cube" => some .cube
  | "fact" => some .factorial
  | _ => none

/-- What is written after the operand. -/
def unaryMark : Unary → Char
  | .square => '²'
  | .cube => '³'
  | .factorial => '!'

/-- The answer to a unary command, given as it was typed, with these arguments. -/
def unaryAnswer (limits : Limits) (op : Unary) (command arguments : List Char) : Message :=
  let expression := trim arguments
  if expression.isEmpty then .plain ("Usage: /".toList ++ command ++ " <number>".toList)
  else
    let answer : Except Fault (List Char) := do
      let x ← evaluate limits expression
      let y ← op.apply (.finite x)
      let operand ← Display.shown x
      let result ← Display.shown y
      .ok (operand ++ unaryMark op :: " = ".toList ++ result)
    match answer with
    | .ok text => .plain text
    | .error fault => .plain fault.text.toList

/-- The answer to a unary command typed in any case. -/
def unaryAnswer? (limits : Limits) (command arguments : List Char) : Option Message :=
  (unaryCommand? (command.map Char.toLower)).map fun op => unaryAnswer limits op command arguments

/-! ### Inline queries -/

def inlineHint : Article where
  title := "Calculator — type an expression".toList
  description := "Type an expression, e.g.: (2+3)*10 - 50%".toList
  text :=
    "Calculator: type an expression after @bot, e.g.: ".toList ++
      Markup.code "(2+3)*10-50%".toList
  markup := true

def faultArticle (expression : List Char) (fault : Fault) : Article where
  title := "Invalid expression".toList
  description := fault.message.toList
  text :=
    "❌ ".toList ++ Markup.escape fault.text.toList ++ ": ".toList ++ Markup.code expression
  markup := true

/-- The articles for an expression with these texts of its value: the expression with its result,
the result alone, and the expression with its result as an amount of money. -/
def resultArticles (expression result money : List Char) : List Article :=
  let equation (text : List Char) : List Char :=
    Markup.code expression ++ " = ".toList ++ Markup.bold text
  [⟨"= ".toList ++ result, expression ++ " = ".toList ++ result, equation result, true⟩,
   ⟨"Number only: ".toList ++ result, "Send just the result".toList, result, false⟩,
   ⟨"Money (2 places): ".toList ++ money, expression ++ " = ".toList ++ money, equation money,
     true⟩]

def inlineAnswer (limits : Limits) (query : List Char) : List Article :=
  let expression := trim query
  if expression.isEmpty then [inlineHint]
  else
    let articles : Except Fault (List Article) := do
      let x ← evaluate limits expression
      let result ← Display.shown x
      let money ← Display.shownMoney x
      .ok (resultArticles expression result money)
    match articles with
    | .ok articles => articles
    | .error fault => [faultArticle expression fault]

end PocketCalculator.Chat
