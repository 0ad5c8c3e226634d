import PocketCalculator.Expression.Numeral
import PocketCalculator.Chat.Bot
import PocketCalculator.Proofs.Expression.Grammar
import PocketCalculator.Proofs.Expression.Reading
import PocketCalculator.Proofs.Expression.Evaluation
import PocketCalculator.Proofs.Decimal.Exact
import PocketCalculator.Proofs.Decimal.Order
import PocketCalculator.Proofs.Expression.Literal
import PocketCalculator.Proofs.Expression.Simulation
import PocketCalculator.Proofs.Expression.Exact
import PocketCalculator.Proofs.Expression.Operation
import PocketCalculator.Proofs.Expression.Bounds
import PocketCalculator.Proofs.Keypad.Press
import PocketCalculator.Proofs.Keypad.Sessions
import PocketCalculator.Proofs.Chat.Runs
import PocketCalculator.Proofs.Chat.Alarms
import PocketCalculator.Proofs.Expression.Scan
import PocketCalculator.Proofs.Expression.Groups
import PocketCalculator.Proofs.Expression.Balance
import PocketCalculator.Proofs.Expression.Remainders
import PocketCalculator.Proofs.Keypad.Lines
import PocketCalculator.Proofs.Chat.Screens
import PocketCalculator.Proofs.Expression.Interruption
import PocketCalculator.Proofs.Chat.Errors
import PocketCalculator.Proofs.Chat.Separation
import PocketCalculator.Proofs.Chat.Redelivery
import PocketCalculator.Proofs.Keypad.Retention
import PocketCalculator.Proofs.Keypad.Exclusion
import PocketCalculator.Proofs.Keypad.Restoring
import PocketCalculator.Proofs.Chat.Inline
import PocketCalculator.Proofs.Display.Canonical
import PocketCalculator.Proofs.Display.Amounts
import PocketCalculator.Proofs.Display.Reread
import PocketCalculator.Proofs.Chat.Money
import PocketCalculator.Proofs.Expression.Range
import PocketCalculator.Proofs.Expression.Precision
import PocketCalculator.Proofs.Keypad.Typing
import PocketCalculator.Proofs.Keypad.FixedPoint
import PocketCalculator.Proofs.Keypad.Reports
import PocketCalculator.Proofs.Keypad.Lengths
import PocketCalculator.Proofs.Keypad.Continuing
import PocketCalculator.Proofs.Expression.Lexemes
import PocketCalculator.Proofs.Chat.Markup
import PocketCalculator.Proofs.Expression.Powers
import PocketCalculator.Proofs.Chat.Deliveries
import PocketCalculator.Proofs.Expression.Numerals
import PocketCalculator.Proofs.Settings
