import HostedLisp.Eval.Steady
import HostedLisp.Expr.Context
import HostedLisp.Proofs.Eval.Unwinding

/-!
# Evaluation with pure procedures

Where all procedures that an expression can call are pure, its evaluation leaves the world as it is,
and the answer is that of the steady evaluation, which is a function of the expression alone. Two
things follow by induction on expressions. The answer depends on no other names than those that
occur in the expression, whatever the chains of scopes look like that they are found in. And it
depends on an argument of a call only through the value or the error of that argument.

## Main definitions

* `Expr.CallsPure` — all procedures that an expression calls are pure

## Main results

* `eval_of_callsPure` — an evaluation with pure procedures is the steady one
* `Steady.eval_congr` — only the names that occur count
* `Steady.eval_fill_congr` — of an argument only the value or the error counts
-/

namespace HostedLisp

variable {σ ε : Type}

/-- The procedures that the heads of calls are bound to, as seen from the scope `env`, are pure. -/
def Expr.CallsPure (host : Host σ ε) (env : Env) (world : World σ) (e : Expr) : Prop :=
  e.EveryHead fun function =>
    ∀ p, world.heap.get? env function = some (.proc p) → host.Pure world.data p

namespace Steady

variable {host : Host σ ε} {env : Env} {world : World σ}

/-! ### Pure procedures -/

theorem recursive_evalArguments {es : List Expr}
    (h : ∀ e ∈ es, (Recursive.eval host env e world).answer = eval host env world e ∧
      (Recursive.eval host env e world).world = world) :
    (Recursive.evalArguments host env es world).answer = evalArguments host env world es ∧
      (Recursive.evalArguments host env es world).world = world := by
  induction es with
  | nil => exact ⟨rfl, rfl⟩
  | cons e es ih =>
    obtain ⟨hanswer, hworld⟩ := h e (by simp)
    obtain ⟨hothers, hothersWorld⟩ := ih fun e he => h e (by simp [he])
    rw [Recursive.evalArguments, evalArguments]
    cases hvalue : eval host env world e with
    | error cause =>
      rw [Evaluation.andThen_eq_error (hanswer.trans hvalue)]
      exact ⟨rfl, hworld⟩
    | ok value =>
      rw [Evaluation.andThen_of_ok (hanswer.trans hvalue), hworld]
      cases hvalues : evalArguments host env world es with
      | error cause =>
        rw [Evaluation.andThen_eq_error (hothers.trans hvalues)]
        exact ⟨rfl, hothersWorld⟩
      | ok values =>
        rw [Evaluation.andThen_of_ok (hothers.trans hvalues)]
        exact ⟨rfl, hothersWorld⟩

/-- **With pure procedures the recursive evaluation is the steady one** and leaves the world as it
is. The induction is on the expression. -/
theorem recursive_eval {e : Expr} (pure : e.CallsPure host env world) :
    (Recursive.eval host env e world).answer = eval host env world e ∧
      (Recursive.eval host env e world).world = world := by
  induction e with
  | atom a =>
    cases a with
    | integer _ | string _ | bool _ => exact ⟨rfl, rfl⟩
    | var name =>
      rw [Recursive.eval_var]
      exact ⟨rfl, rfl⟩
  | call function arguments ih =>
    obtain ⟨hfunction, harguments⟩ := Expr.everyHead_call_iff.1 pure
    obtain ⟨hanswer, hworld⟩ := recursive_evalArguments fun e he => ih e he (harguments e he)
    cases hp : (world.heap.procedure env function : Except (EvalError ε) Proc) with
    | error cause =>
      rw [Recursive.eval_call_of_error host env hp, eval, hp]
      exact ⟨rfl, rfl⟩
    | ok p =>
      rw [Recursive.eval_call_of_ok host env hp, eval, hp]
      cases hvalues : evalArguments host env world arguments with
      | error cause =>
        rw [Evaluation.andThen_eq_error (hanswer.trans hvalues)]
        exact ⟨rfl, hworld⟩
      | ok values =>
        have hpure := hfunction p (Heap.procedure_eq_ok_iff.1 hp)
        rw [Evaluation.andThen_of_ok (hanswer.trans hvalues), hworld]
        exact ⟨Recursive.answer_apply host function p values world, hpure.world values world.heap⟩

/-! ### Only the names that occur count -/

theorem evalArguments_congr {env' : Env} {world' : World σ} {es : List Expr}
    (h : ∀ e ∈ es, eval host env world e = eval host env' world' e) :
    evalArguments host env world es = evalArguments host env' world' es := by
  induction es with
  | nil => rfl
  | cons e es ih =>
    rw [evalArguments, evalArguments, h e (by simp), ih fun e he => h e (by simp [he])]

/-- **The value of an expression depends only on what its names are bound to**, and on what the
procedures among these give. -/
theorem eval_congr {env' : Env} {world' : World σ} {e : Expr}
    (hnames : e.EveryName fun name => world.heap.get? env name = world'.heap.get? env' name)
    (hcalls : e.EveryHead fun function => ∀ p, world.heap.get? env function = some (.proc p) →
      ∀ values, (host p values world).answer = (host p values world').answer) :
    eval host env world e = eval host env' world' e := by
  induction e with
  | atom a =>
    cases a with
    | integer _ | string _ | bool _ => rfl
    | var name =>
      have hname : world.heap.get? env name = world'.heap.get? env' name := hnames
      rw [eval, eval, Heap.value, Heap.value, hname]
  | call function arguments ih =>
    obtain ⟨hfunction, hothers⟩ := Expr.everyName_call_iff.1 hnames
    obtain ⟨hcall, hcalls⟩ := Expr.everyHead_call_iff.1 hcalls
    have harguments : evalArguments host env world arguments
        = evalArguments host env' world' arguments :=
      evalArguments_congr fun e he => ih e he (hothers e he) (hcalls e he)
    have hprocedure : (world.heap.procedure env function : Except (EvalError ε) Proc)
        = world'.heap.procedure env' function := by
      rw [Heap.procedure, Heap.procedure, hfunction]
    rw [eval, eval, harguments, ← hprocedure]
    cases hp : (world.heap.procedure env function : Except (EvalError ε) Proc) with
    | error cause => rfl
    | ok p =>
      have hsame := hcall p (Heap.procedure_eq_ok_iff.1 hp)
      cases evalArguments host env' world' arguments with
      | error cause => rfl
      | ok values => exact congrArg (Except.mapError EvalError.host) (hsame values)

/-! ### Of an argument only the value or the error counts -/

theorem evalArguments_append_congr {e e' : Expr}
    (h : eval host env world e = eval host env world e') (before behind : List Expr) :
    evalArguments host env world (before ++ e :: behind)
      = evalArguments host env world (before ++ e' :: behind) := by
  induction before with
  | nil => rw [List.nil_append, List.nil_append, evalArguments, evalArguments, h]
  | cons first before ih =>
    rw [List.cons_append, List.cons_append, evalArguments, evalArguments, ih]

/-- **What stands in the hole of a context counts only through its value or its error.** -/
theorem eval_fill_congr {e e' : Expr} (h : eval host env world e = eval host env world e')
    (context : Context) :
    eval host env world (context.fill e) = eval host env world (context.fill e') := by
  induction context with
  | hole => exact h
  | argument function before inner behind ih =>
    rw [Context.fill, Context.fill, eval, eval, evalArguments_append_congr ih]

end Steady

/-- **With pure procedures an evaluation is the steady one** and leaves the world as it is. -/
theorem eval_of_callsPure {host : Host σ ε} {env : Env} {world : World σ} {e : Expr}
    (pure : e.CallsPure host env world) :
    (eval host env e world).answer = Steady.eval host env world e ∧
      (eval host env e world).world = world := by
  rw [eval, Machine.run_eq_outcome, Machine.outcome_start]
  exact Steady.recursive_eval pure

end HostedLisp
