import Lox.Bindings
import Lox.CommandLine
import Lox.CommandLine.Arguments
import Lox.CommandLine.FileTree
import Lox.Compilation
import Lox.Decimal.Basic
import Lox.Decimal.Layout
import Lox.Decimal.Rounding
import Lox.Decimal.Shortest
import Lox.Diagnostic
import Lox.Environment
import Lox.Fault
import Lox.Host
import Lox.Host.Catalogue
import Lox.Main
import Lox.Number
import Lox.Operator
import Lox.Scope
import Lox.Scope.Resolution
import Lox.Session
import Lox.Session.Action
import Lox.Session.Call
import Lox.Session.Evaluation
import Lox.Session.Exchange
import Lox.Session.Limits
import Lox.Session.Object
import Lox.Session.Report
import Lox.Session.Steps
import Lox.Syntax
import Lox.Syntax.Cursor
import Lox.Syntax.Expression
import Lox.Syntax.Printer
import Lox.Syntax.Statement
import Lox.Text.Integer
import Lox.Text.Lines
import Lox.Text.Quoted
import Lox.Text.Ranges
import Lox.Text.Visible
import Lox.Token
import Lox.Token.Piece
import Lox.Token.Scan
import Lox.Value
import Lox.Proofs.Grammar.Derivation
import Lox.Proofs.Grammar.ExpressionSoundness
import Lox.Proofs.Grammar.ExpressionCompleteness
import Lox.Proofs.Grammar.StatementSoundness
import Lox.Proofs.Grammar.StatementCompleteness
import Lox.Proofs.Grammar.Spelling
import Lox.Proofs.Grammar.Unambiguity
import Lox.Proofs.Grammar.Acceptance
import Lox.Proofs.Scoping.Walk
import Lox.Proofs.Bindings
import Lox.Proofs.Scoping.Checked
import Lox.Proofs.Methods.Binding
import Lox.Proofs.Methods.Persistence
import Lox.Proofs.Moving.Reading
import Lox.Proofs.Moving.Tree
import Lox.Proofs.Simulation.Likeness
import Lox.Proofs.Simulation.Value
import Lox.Proofs.Simulation.World
import Lox.Proofs.Simulation.State
import Lox.Proofs.Simulation.Action
import Lox.Proofs.Simulation.Object
import Lox.Proofs.Simulation.Call
import Lox.Proofs.Simulation.Exchange
import Lox.Proofs.Grammar.Numbering
import Lox.Proofs.Grammar.Trees
import Lox.Proofs.Scoping.Acceptance
import Lox.Proofs.Simulation.Identity
import Lox.Proofs.Simulation.Run
import Lox.Proofs.Simulation.Evaluation
import Lox.Proofs.History.Host
import Lox.Proofs.History.Steps
import Lox.Proofs.Soundness.Exact
import Lox.Proofs.Soundness.Visit
import Lox.Proofs.Soundness.Placement
import Lox.Proofs.Soundness.Progress
import Lox.Proofs.History.Growth
import Lox.Proofs.History.Chronicle
import Lox.Proofs.History.Rejection
import Lox.Proofs.Token.Division
import Lox.Proofs.Scoping.Distance
import Lox.Proofs.Scoping.Violations
import Lox.Proofs.Preservation.Inherited
import Lox.Proofs.Preservation.Upheld
import Lox.Proofs.Preservation.Report
import Lox.Proofs.Depth.Plain
import Lox.Proofs.Depth.Count
import Lox.Proofs.Depth.Overflow
import Lox.Proofs.Depth.Limit
import Lox.Proofs.Renaming.Run
import Lox.Proofs.Grammar.Extension
import Lox.Proofs.Joining.Text
import Lox.Proofs.History.Outward
import Lox.Proofs.Joining.Program
import Lox.Proofs.Joining.Lowering
import Lox.Proofs.Joining.Run
import Lox.Proofs.Links.Action
import Lox.Proofs.Links.Chain
import Lox.Proofs.Links.Evaluation
import Lox.Proofs.Links.History
import Lox.Proofs.Links.Object
import Lox.Proofs.Links.State
import Lox.Proofs.Links.Visit
import Lox.Proofs.Recovery.Row
import Lox.Proofs.Recovery.Tracking
import Lox.Proofs.Recovery.Expression
import Lox.Proofs.Recovery.Statement
import Lox.Proofs.Recovery.Totality
import Lox.Proofs.Recovery.Continuation
import Lox.Proofs.Precedence.Cascade
import Lox.Proofs.Precedence.Stratified
import Lox.Proofs.Preservation.Local
import Lox.Proofs.Naming.Declaration
import Lox.Proofs.Naming.Unreported
import Lox.Proofs.Naming.Run
import Lox.Proofs.Names.Kept
import Lox.Proofs.Names.Evaluation
import Lox.Proofs.Names.Lasting
import Lox.Proofs.Names.Leak
import Lox.Proofs.Termination.LoopFree
import Lox.Proofs.Termination.Settling
import Lox.Proofs.Termination.Halting
import Lox.Proofs.Termination.Run
import Lox.Proofs.Thinning.Code
import Lox.Proofs.Thinning.Scopes
import Lox.Proofs.Thinning.Layout
import Lox.Proofs.Thinning.State
import Lox.Proofs.Thinning.Action
import Lox.Proofs.Thinning.Call
import Lox.Proofs.Thinning.Run
import Lox.Proofs.Thinning.Evaluation
import Lox.Proofs.Thinning.History
import Lox.Proofs.Thinning.Visit
import Lox.Proofs.Thinning.Reading
import Lox.Proofs.ForLoop.Direct
import Lox.Proofs.ForLoop.Equivalence
import Lox.Proofs.ForLoop.Meaning
import Lox.Proofs.Token.Front
import Lox.Proofs.Token.Lines
import Lox.Proofs.Decimal.Nearest
import Lox.Proofs.Decimal.Representation
import Lox.Proofs.Decimal.Layout
import Lox.Proofs.Decimal.Shortest
import Lox.Proofs.Decimal.Display
import Lox.Proofs.Printing.Outline
import Lox.Proofs.Printing.Written
import Lox.Proofs.Decimal.Literal
import Lox.Proofs.Printing.Shape
import Lox.Proofs.Printing.Reading
import Lox.Proofs.HostCall.Hiding
import Lox.Proofs.HostCall.Overlooking
import Lox.Proofs.HostCall.Source
import Lox.Proofs.HostCall.Agreement
import Lox.Proofs.Token.Composition
import Lox.Proofs.Input.Taking
import Lox.Proofs.Input.LineCalls
import Lox.Proofs.Input.Prompt
import Lox.Proofs.Frames.Forest
