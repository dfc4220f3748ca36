import HostedLisp.Eval.Machine
import HostedLisp.Expr.Occurrence

/-!
# The machine turn by turn

A run of the machine is looked at here one turn after the other. The waiting calls of a state lead
from the outside of the expression that is evaluated to the one that is looked at: each call waits
for the argument whose number is the number of the values it has. So the stack tells a place, and
`Machine.State.StandsIn` says that the expression to look at is what stands there.

## Main definitions

* `Machine.turns` — what some turns lead to
* `Machine.State.place`, `Machine.State.StandsIn` — where a state is in an expression
* `Machine.State.enclosing` — the calls that are open there
* `Host.AgreesAt` — two hosts that do the same where procedures are applied
-/

namespace HostedLisp

variable {σ ε : Type}

namespace Expr

/-- The head of a call and the number of its arguments. -/
def signature? : Expr → Option (String × Nat)
  | .atom _ => none
  | .call function arguments => some (function, arguments.length)

end Expr

namespace Machine

/-- What `n` turns lead to. Nothing follows the end of an evaluation. -/
def turns (host : Host σ ε) (env : Env) : Nat → State σ → Turn σ ε
  | 0, s => .next s
  | n + 1, s =>
    match turn host env s with
    | .next s' => turns host env n s'
    | .done evaluation => .done evaluation

/-- The procedures that were applied up to the end of a turn. -/
def Turn.applications : Turn σ ε → List Application
  | .next s => s.applications.toList
  | .done evaluation => evaluation.applications.toList

/-! ### Where a state is -/

/-- A waiting call as an expression. -/
def Pending.expr (call : Pending) : Expr := .call call.function call.arguments

/-- The place of the argument that the innermost of some waiting calls waits for. -/
def awaitedPlace : List Pending → List Nat
  | [] => []
  | call :: outer => awaitedPlace outer ++ [call.values.length]

/-- The place of the expression to look at. -/
def State.place (s : State σ) : List Nat := awaitedPlace s.stack

/-- The expression to look at and the waiting calls around it, the innermost one first. -/
def State.enclosing (s : State σ) : List Expr := s.next :: s.stack.map Pending.expr

/-- The waiting calls of a state lead from the expression `e` to the one to look at. -/
structure State.StandsIn (e : Expr) (s : State σ) : Prop where
  /-- The outermost waiting call is `e` itself. -/
  outermost : ∀ call, s.stack.getLast? = some call → call.expr = e
  /-- Every waiting call has fewer values than arguments. -/
  waiting : ∀ call ∈ s.stack, call.values.length < call.arguments.length
  /-- The next call inside a waiting one is the argument that it waits for. -/
  inner : ∀ i inner outer, s.stack[i]? = some inner → s.stack[i + 1]? = some outer →
    outer.arguments[outer.values.length]? = some inner.expr
  /-- The expression to look at is the argument that the innermost call waits for. -/
  awaited : ∀ call outer, s.stack = call :: outer →
    call.arguments[call.values.length]? = some s.next
  /-- Without waiting calls it is `e`. -/
  whole : s.stack = [] → s.next = e

end Machine

/-- The host `host'` does the same as `host` in some applications one after the other, the first of
which is made in `world`. Nothing is said of anything else that it may do. -/
def Host.AgreesAt (host host' : Host σ ε) : List Application → World σ → Prop
  | [], _ => True
  | a :: others, world =>
    host' a.proc a.arguments world = host a.proc a.arguments world ∧
      host.AgreesAt host' others (host a.proc a.arguments world).world

end HostedLisp
