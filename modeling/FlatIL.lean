import FlatIL.Command.Arguments
import FlatIL.Command.Execute
import FlatIL.Command.InputOption
import FlatIL.Command.Log
import FlatIL.Command.Output
import FlatIL.Command.Repl
import FlatIL.Draft
import FlatIL.Draft.Check
import FlatIL.Draft.Render
import FlatIL.Draft.Run
import FlatIL.Engine
import FlatIL.Eval
import FlatIL.Expr
import FlatIL.Expr.Fold
import FlatIL.Fault
import FlatIL.Inputs
import FlatIL.Json
import FlatIL.Json.Read
import FlatIL.Json.Write
import FlatIL.Main
import FlatIL.Model.Double
import FlatIL.Model.Ident
import FlatIL.Model.Issue
import FlatIL.Model.Library
import FlatIL.Model.Literal
import FlatIL.Model.Read
import FlatIL.Model.Standard
import FlatIL.Model.Write
import FlatIL.Name
import FlatIL.NodeForm
import FlatIL.Operator
import FlatIL.Parser.Basic
import FlatIL.Parser.Cursor
import FlatIL.Parser.Expr
import FlatIL.Parser.Program
import FlatIL.Program
import FlatIL.Proofs.Depth
import FlatIL.Proofs.Grammar
import FlatIL.Render
import FlatIL.Run
import FlatIL.Seed
import FlatIL.Session
import FlatIL.Snapshot
import FlatIL.Source
import FlatIL.State
import FlatIL.Step
import FlatIL.Table
import FlatIL.Text.Blank
import FlatIL.Text.Decimal
import FlatIL.Text.Digit
import FlatIL.Text.Integer
import FlatIL.Text.Printable
import FlatIL.Text.Quoted
import FlatIL.Text.Similar
import FlatIL.Token
import FlatIL.Token.Scan
import FlatIL.Word
import FlatIL.Proofs.Nesting
import FlatIL.Proofs.Parser
import FlatIL.Proofs.Parser.Sound
import FlatIL.Proofs.Parser.Complete
import FlatIL.Proofs.Parser.Exact
import FlatIL.Proofs.Decimal
import FlatIL.Proofs.Scan
import FlatIL.Proofs.Render
import FlatIL.Proofs.RoundTrip
import FlatIL.Proofs.Table
import FlatIL.Proofs.Evaluation
import FlatIL.Proofs.Order
import FlatIL.Proofs.Execution
import FlatIL.Proofs.Seeding
import FlatIL.Proofs.Control
import FlatIL.Proofs.Atomicity
import FlatIL.Proofs.Budget
import FlatIL.Proofs.Unbounded
import FlatIL.Proofs.Domain
import FlatIL.Proofs.UnreadInput
import FlatIL.Proofs.Scan.Lossless
import FlatIL.Proofs.Scan.Stream
import FlatIL.Proofs.Concatenation
import FlatIL.Proofs.Parser.Predictive
import FlatIL.Proofs.ErrorLocation
import FlatIL.Proofs.Parser.Forward
import FlatIL.Proofs.Formatting
import FlatIL.Proofs.Unguarded.Sources
import FlatIL.Proofs.Unguarded
import FlatIL.Proofs.Safety
import FlatIL.Proofs.Session
import FlatIL.Proofs.Fork
import FlatIL.Proofs.Dialogue
import FlatIL.Proofs.History
import FlatIL.Proofs.Delivery
import FlatIL.Proofs.Json
import FlatIL.Proofs.Model
import FlatIL.Proofs.Storage
import FlatIL.Proofs.Repl
import FlatIL.Proofs.Fault
import FlatIL.Proofs.Pieces
import FlatIL.Proofs.Persistence
import FlatIL.Proofs.Message
import FlatIL.Proofs.Difference
import FlatIL.Proofs.Transcript
import FlatIL.Proofs.Frame
import FlatIL.Proofs.Unmentioned
import FlatIL.Proofs.Parentheses
import FlatIL.Proofs.Parser.Placeless
import FlatIL.Proofs.Arrangement
import FlatIL.Proofs.Wrapping
import FlatIL.Proofs.Consumption
import FlatIL.Proofs.Naming
import FlatIL.Proofs.Refusal
import FlatIL.Proofs.Sketch
import FlatIL.Proofs.Halting
import FlatIL.Proofs.Lines
import FlatIL.Proofs.InputOption
import FlatIL.Proofs.Cursor
import FlatIL.Proofs.Calls
