import HostedLisp.Eval.World
import HostedLisp.Expr.Basic

/-!
# Evaluation by recursion

The meaning of expressions, said by recursion on them: the value of a call is that of its procedure
on the values of its arguments, each of which is evaluated in the world that the one before it has
left. The machine does the same without recursion.

The machine has no part in this. What a name means is read off the scopes, and what a procedure does
is asked of the host.

## Main definitions

* `Evaluation.andThen` — one evaluation and then another one, unless the first one fails
* `Recursive.apply`, `Recursive.eval` — what an application comes to; the value of an expression
-/

namespace HostedLisp

variable {σ ε : Type}

/-- Goes on with the value of an evaluation, if it has one, in the world that it has left. -/
def Evaluation.andThen {α β : Type} (first : Evaluation σ ε α)
    (next : α → World σ → Evaluation σ ε β) : Evaluation σ ε β :=
  match first.answer with
  | .error e => ⟨.error e, first.world, first.applications⟩
  | .ok a =>
    let second := next a first.world
    { second with applications := first.applications ++ second.applications }

namespace Recursive

/-- The value that the host gives for the procedure `p` and its arguments. An error of the host is
one of the evaluation, and the application counts whether it fails or not. -/
def apply (host : Host σ ε) (function : String) (p : Proc) (values : List Value)
    (world : World σ) : Evaluation σ ε Value where
  answer :=
    match (host p values world).answer with
    | .ok value => .ok value
    | .error cause => .error (.host cause)
  world := (host p values world).world
  applications := #[⟨function, p, values, (host p values world).log⟩]

mutual

/-- The value of an expression. The head of a call is looked up before its arguments are evaluated,
and the procedure found is applied after that. -/
def eval (host : Host σ ε) (env : Env) : Expr → World σ → Evaluation σ ε Value
  | .atom (.integer value), world => ⟨.ok (.integer value), world, #[]⟩
  | .atom (.string content), world => ⟨.ok (.string content), world, #[]⟩
  | .atom (.bool value), world => ⟨.ok (.bool value), world, #[]⟩
  | .atom (.var name), world =>
    match world.heap.get? env name with
    | none => ⟨.error (.unbound name), world, #[]⟩
    | some value => ⟨.ok value, world, #[]⟩
  | .call function arguments, world =>
    match world.heap.get? env function with
    | none => ⟨.error (.unbound function), world, #[]⟩
    | some (.proc p) => (evalArguments host env arguments world).andThen (apply host function p)
    | some _ => ⟨.error (.notAProc function), world, #[]⟩

/-- The values of some expressions, evaluated from the left to the right. -/
def evalArguments (host : Host σ ε) (env : Env) :
    List Expr → World σ → Evaluation σ ε (List Value)
  | [], world => ⟨.ok [], world, #[]⟩
  | e :: es, world =>
    (eval host env e world).andThen fun value world =>
      (evalArguments host env es world).andThen fun values world =>
        ⟨.ok (value :: values), world, #[]⟩

end

end Recursive

end HostedLisp
