import ExprLang.Cli
import ExprLang.Diagnostic
import ExprLang.Diagnostic.Render
import ExprLang.Directory
import ExprLang.Eval
import ExprLang.Event
import ExprLang.Expr
import ExprLang.Expr.Parser
import ExprLang.Expr.Trail
import ExprLang.Main
import ExprLang.Native
import ExprLang.Number.Binary
import ExprLang.Number.Decimal
import ExprLang.Number.Format
import ExprLang.Number.IntType
import ExprLang.Number.Integer
import ExprLang.Number.Power
import ExprLang.Number.Shortest
import ExprLang.Operator
import ExprLang.Proofs.Alignment
import ExprLang.Proofs.Arithmetic
import ExprLang.Proofs.Attempts
import ExprLang.Proofs.Below
import ExprLang.Proofs.Cause
import ExprLang.Proofs.Coercion
import ExprLang.Proofs.Colour
import ExprLang.Proofs.Comparisons
import ExprLang.Proofs.Completion
import ExprLang.Proofs.Concatenation
import ExprLang.Proofs.Consumption
import ExprLang.Proofs.Continuation
import ExprLang.Proofs.Delivery
import ExprLang.Proofs.Depth
import ExprLang.Proofs.Extension
import ExprLang.Proofs.Following
import ExprLang.Proofs.Grammar
import ExprLang.Proofs.Header
import ExprLang.Proofs.Incomplete
import ExprLang.Proofs.Inference
import ExprLang.Proofs.Joining
import ExprLang.Proofs.Judging
import ExprLang.Proofs.Lines
import ExprLang.Proofs.Literals
import ExprLang.Proofs.Locals
import ExprLang.Proofs.Lookahead
import ExprLang.Proofs.Marking
import ExprLang.Proofs.Nesting
import ExprLang.Proofs.Numbers
import ExprLang.Proofs.Parameters
import ExprLang.Proofs.Parsing
import ExprLang.Proofs.PlacedRuns
import ExprLang.Proofs.Placement
import ExprLang.Proofs.Printing
import ExprLang.Proofs.Reading
import ExprLang.Proofs.Relexing
import ExprLang.Proofs.Rendering
import ExprLang.Proofs.Reordering
import ExprLang.Proofs.Reprinting
import ExprLang.Proofs.Resolution
import ExprLang.Proofs.Respacing
import ExprLang.Proofs.Rounding
import ExprLang.Proofs.ScopeRuns
import ExprLang.Proofs.ScopeStack
import ExprLang.Proofs.Solution
import ExprLang.Proofs.Spacing
import ExprLang.Proofs.Termination
import ExprLang.Proofs.Tiling
import ExprLang.Proofs.Truncation
import ExprLang.Proofs.TwoRuns
import ExprLang.Proofs.Validity
import ExprLang.Proofs.Verdicts
import ExprLang.Proofs.WholeNumbers
import ExprLang.Resolve
import ExprLang.Run
import ExprLang.Scope
import ExprLang.Session
import ExprLang.Sink
import ExprLang.Span
import ExprLang.Text.Blank
import ExprLang.Text.Bytes
import ExprLang.Text.Column
import ExprLang.Text.Hidden
import ExprLang.Text.Letter
import ExprLang.Text.Numeral
import ExprLang.Text.Quoted
import ExprLang.Text.Ranges
import ExprLang.Token
import ExprLang.Token.Lexer
import ExprLang.Ty
import ExprLang.Value
import ExprLang.Value.Arithmetic
import ExprLang.Value.Coerce
