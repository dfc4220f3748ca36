import HostedLisp.Eval.World
import HostedLisp.Expr.Basic

/-!
# Evaluation in a world that stays as it is

Where procedures change nothing, everything is evaluated in one world, and all that is left of an
evaluation is its value or its error. The order of evaluation still shows, in the error that is
met first.

A procedure is known by its identity alone, and what it does may be written in the data of the host.
So a procedure is pure with respect to certain data. As long as nothing is changed these stay what
they are, and a pure procedure gives the same for the same arguments.

## Main definitions

* `Host.Pure` — a procedure changes nothing, and its result depends on its arguments alone
* `Steady.eval` — the value of an expression in a world that stays as it is
-/

namespace HostedLisp

variable {σ ε : Type}

/-- While the host has the data `data`, the procedure `p` changes nothing, and its result is the
same for the same arguments. -/
structure Host.Pure (host : Host σ ε) (data : σ) (p : Proc) : Prop where
  /-- The result does not depend on the scopes. -/
  answer : ∀ values first second,
    (host p values ⟨first, data⟩).answer = (host p values ⟨second, data⟩).answer
  /-- Nothing is changed. -/
  world : ∀ values heap, (host p values ⟨heap, data⟩).world = ⟨heap, data⟩

namespace Steady

mutual

/-- The value of an expression in a world that stays as it is. -/
def eval (host : Host σ ε) (env : Env) (world : World σ) : Expr → Except (EvalError ε) Value
  | .atom (.integer value) => .ok (.integer value)
  | .atom (.string content) => .ok (.string content)
  | .atom (.bool value) => .ok (.bool value)
  | .atom (.var name) => world.heap.value env name
  | .call function arguments => do
    let p ← world.heap.procedure env function
    let values ← evalArguments host env world arguments
    (host p values world).answer.mapError .host

/-- The values of some expressions. The first error counts. -/
def evalArguments (host : Host σ ε) (env : Env) (world : World σ) :
    List Expr → Except (EvalError ε) (List Value)
  | [] => .ok []
  | e :: es => do
    let value ← eval host env world e
    let values ← evalArguments host env world es
    .ok (value :: values)

end

end Steady

end HostedLisp
