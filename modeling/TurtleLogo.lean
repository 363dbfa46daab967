import TurtleLogo.Text.Basic
import TurtleLogo.Text.CaseTable
import TurtleLogo.Text.Case
import TurtleLogo.Decimal.Binary
import TurtleLogo.Decimal.Shortest
import TurtleLogo.Decimal.Layout
import TurtleLogo.Decimal.Numeral
import TurtleLogo.Atom.Basic
import TurtleLogo.Atom.Print
import TurtleLogo.Source.Lexeme
import TurtleLogo.Source.Read
import TurtleLogo.NameTable
import TurtleLogo.Frames
import TurtleLogo.Fault
import TurtleLogo.Operator
import TurtleLogo.Arity
import TurtleLogo.Definition
import TurtleLogo.Turtle.Board
import TurtleLogo.Turtle.Basic
import TurtleLogo.Host
import TurtleLogo.Primitive.Basic
import TurtleLogo.Procedure
import TurtleLogo.Expr
import TurtleLogo.World
import TurtleLogo.Run.Basic
import TurtleLogo.Run.Input
import TurtleLogo.Primitive.Drawing
import TurtleLogo.Primitive.Variables
import TurtleLogo.Primitive.Choice
import TurtleLogo.Primitive.Iteration
import TurtleLogo.Primitive.Apply
import TurtleLogo.Run.Interpret
import TurtleLogo.Report.Json
import TurtleLogo.Report.Failure
import TurtleLogo.Report.Script
import TurtleLogo.Session
import TurtleLogo.Command.Options
import TurtleLogo.Command.Respond
import TurtleLogo.Main
import TurtleLogo.Proofs.Source.Scan
import TurtleLogo.Proofs.Source.Word
import TurtleLogo.Proofs.Source.Content
import TurtleLogo.Proofs.Source.Print
import TurtleLogo.Proofs.Source.Bracket
import TurtleLogo.Proofs.Source.Minus
import TurtleLogo.Proofs.Decimal.Binary
import TurtleLogo.Proofs.Parse.Basic
import TurtleLogo.Proofs.Parse.Congruence
import TurtleLogo.Proofs.Parse.Definition
import TurtleLogo.Proofs.Parse.Effect
import TurtleLogo.Proofs.Parse.Append
import TurtleLogo.Proofs.Parse.Name
import TurtleLogo.Proofs.Parse.Grammar
import TurtleLogo.Proofs.Parse.Print
import TurtleLogo.Proofs.Parse.Yield
import TurtleLogo.Proofs.Parse.Arity
import TurtleLogo.Proofs.Parse.Header
import TurtleLogo.Proofs.Parse.Enclosed
import TurtleLogo.Proofs.Parse.Parenthesis
import TurtleLogo.Proofs.Run.Basic
import TurtleLogo.Proofs.Run.Compatible
import TurtleLogo.Proofs.Run.Primitive
import TurtleLogo.Proofs.Run.Interpret
import TurtleLogo.Proofs.Run.Congruence
import TurtleLogo.Proofs.Run.Law
import TurtleLogo.Proofs.Run.Hosts
import TurtleLogo.Proofs.Run.Balance
import TurtleLogo.Proofs.Run.Fuel
import TurtleLogo.Proofs.Run.Sequence
import TurtleLogo.Proofs.Run.Limit
import TurtleLogo.Proofs.Run.Isolation
import TurtleLogo.Proofs.Run.Registry
import TurtleLogo.Proofs.Run.Arity
import TurtleLogo.Proofs.Run.Attribution
import TurtleLogo.Proofs.Run.Termination
import TurtleLogo.Proofs.Run.Abort
import TurtleLogo.Proofs.Run.Depth
import TurtleLogo.Proofs.Run.Parenthesis
import TurtleLogo.Proofs.Run.Binding
import TurtleLogo.Proofs.Run.Output
import TurtleLogo.Proofs.Value.Rules
import TurtleLogo.Proofs.Value.Primitive
import TurtleLogo.Proofs.Value.Interpret
import TurtleLogo.Proofs.Value.Alphabet
import TurtleLogo.Proofs.Text.Line
import TurtleLogo.Proofs.Command.Modes
import TurtleLogo.Proofs.Source.Compose
import TurtleLogo.Proofs.Source.Numeral
import TurtleLogo.Proofs.Parse.Room
import TurtleLogo.Proofs.Parse.Metered
import TurtleLogo.Proofs.Run.Assignment
import TurtleLogo.Proofs.Decimal.Round
import TurtleLogo.Proofs.Decimal.Value
import TurtleLogo.Proofs.Run.Conclude
import TurtleLogo.Proofs.Run.Loop
import TurtleLogo.Proofs.Run.Repetition
import TurtleLogo.Proofs.Run.Counting
import TurtleLogo.Proofs.Run.Choice
import TurtleLogo.Proofs.Atom.Equality
import TurtleLogo.Proofs.Report.Caret
import TurtleLogo.Proofs.Turtle.Trace
import TurtleLogo.Proofs.Run.Progress
