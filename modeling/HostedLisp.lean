import HostedLisp.Eval.Machine
import HostedLisp.Eval.Recursive
import HostedLisp.Eval.Steady
import HostedLisp.Eval.Turns
import HostedLisp.Eval.World
import HostedLisp.Event
import HostedLisp.Expr.Basic
import HostedLisp.Expr.Context
import HostedLisp.Expr.Occurrence
import HostedLisp.Expr.Postorder
import HostedLisp.Expr.Preorder
import HostedLisp.Expr.Print
import HostedLisp.Expr.Stats
import HostedLisp.Expr.TearDown
import HostedLisp.Expr.Tokens
import HostedLisp.Form.CallStack
import HostedLisp.Form.Descent
import HostedLisp.Form.Error
import HostedLisp.Form.OpenCall
import HostedLisp.Form.Place
import HostedLisp.Form.Read
import HostedLisp.Form.Step
import HostedLisp.Library.Basic
import HostedLisp.Library.Host
import HostedLisp.Library.Pure
import HostedLisp.Program
import HostedLisp.Proofs.Eval.Applications
import HostedLisp.Proofs.Eval.Kept
import HostedLisp.Proofs.Eval.Names
import HostedLisp.Proofs.Eval.Replacement
import HostedLisp.Proofs.Eval.Script
import HostedLisp.Proofs.Eval.Sequence
import HostedLisp.Proofs.Eval.Steady
import HostedLisp.Proofs.Eval.Turns
import HostedLisp.Proofs.Eval.Unwinding
import HostedLisp.Proofs.Eval.Visits
import HostedLisp.Proofs.Expr.TearDown
import HostedLisp.Proofs.Form.Behind
import HostedLisp.Proofs.Form.CallStack
import HostedLisp.Proofs.Form.Completion
import HostedLisp.Proofs.Form.Consumed
import HostedLisp.Proofs.Form.Cut
import HostedLisp.Proofs.Form.Descent
import HostedLisp.Proofs.Form.Exact
import HostedLisp.Proofs.Form.Feed
import HostedLisp.Proofs.Form.Grammar
import HostedLisp.Proofs.Form.Inside
import HostedLisp.Proofs.Form.Progress
import HostedLisp.Proofs.Form.Pulled
import HostedLisp.Proofs.Form.Reprint
import HostedLisp.Proofs.Form.RoundTrip
import HostedLisp.Proofs.Form.Run
import HostedLisp.Proofs.Form.Seam
import HostedLisp.Proofs.Form.Settling
import HostedLisp.Proofs.Form.Single
import HostedLisp.Proofs.Form.Step
import HostedLisp.Proofs.Library.Operation
import HostedLisp.Proofs.Program.Concatenation
import HostedLisp.Proofs.Program.Displayed
import HostedLisp.Proofs.Program.Eager
import HostedLisp.Proofs.Program.Transcript
import HostedLisp.Proofs.Scope.Binding
import HostedLisp.Proofs.Scope.Growth
import HostedLisp.Proofs.Scope.Independence
import HostedLisp.Proofs.Scope.Picture
import HostedLisp.Proofs.Text.Ended
import HostedLisp.Proofs.Text.Escaped
import HostedLisp.Proofs.Text.Lookahead
import HostedLisp.Proofs.Token.Cut
import HostedLisp.Proofs.Token.Fault
import HostedLisp.Proofs.Token.Gap
import HostedLisp.Proofs.Token.Lexeme
import HostedLisp.Proofs.Token.Reads
import HostedLisp.Proofs.Token.Rendering
import HostedLisp.Proofs.Token.Seam
import HostedLisp.Scope.Access
import HostedLisp.Scope.Heap
import HostedLisp.Scope.Operation
import HostedLisp.Scope.Picture
import HostedLisp.Text.ByteStream
import HostedLisp.Text.Cursor
import HostedLisp.Text.Escaped
import HostedLisp.Text.Lookahead
import HostedLisp.Text.Position
import HostedLisp.Text.Quoted
import HostedLisp.Text.Shown
import HostedLisp.Token.Basic
import HostedLisp.Token.Fault
import HostedLisp.Token.Scan
import HostedLisp.Token.Written
import HostedLisp.Value
