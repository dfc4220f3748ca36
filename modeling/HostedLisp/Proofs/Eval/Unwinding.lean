import HostedLisp.Eval.Machine
import HostedLisp.Proofs.Eval.Sequence

/-!
# The machine computes the recursive value

A stack of waiting calls is a promise about the value that it is waiting for: the innermost call
will evaluate the arguments behind the awaited one, apply its procedure, and hand the result to the
call around it. `Machine.unwind` is that promise as a function, said with the recursive evaluation
of arguments, and `Machine.State.outcome` is what a state will come to: the recursive evaluation of
the expression to look at, and then the promise of its stack.

No turn of the machine changes the outcome of its state. This holds in every world and whatever the
procedures do to the scopes in use, since both sides look a head up in the world of the same moment
and keep the procedure found.

The recursive evaluation says on its own what a name is bound to and what an application comes to.
That the machine finds and does the same is settled first, so that turns can be compared.

## Main results

* `Recursive.eval_var`, `Recursive.eval_call_of_ok` — both sides find the same under a name
* `Machine.applyProc_eq_after` — both sides apply a procedure in the same way
* `Machine.outcome_deliver` — handing a value to a stack keeps the promise of the stack
* `Machine.outcome_turn` — a turn keeps the outcome of its state
* `Machine.run_eq_outcome` — a run ends in the outcome of the state that it starts from
* `eval_eq_recursive` — the machine and the recursive definition agree
-/

namespace HostedLisp

variable {σ ε : Type}

/-! ### Names and applications -/

namespace Recursive

variable (host : Host σ ε) (env : Env)

theorem eval_var (name : String) (world : World σ) :
    eval host env (.atom (.var name)) world = ⟨world.heap.value env name, world, #[]⟩ := by
  rw [eval, Heap.value]
  cases world.heap.get? env name <;> rfl

theorem eval_call_of_error {function : String} {world : World σ} {cause : EvalError ε}
    (h : world.heap.procedure env function = .error cause) (arguments : List Expr) :
    eval host env (.call function arguments) world = ⟨.error cause, world, #[]⟩ := by
  rw [eval]
  rcases Heap.procedure_eq_error_iff.1 h with ⟨rfl, hunbound⟩ | ⟨rfl, value, hvalue, hproc⟩
  · rw [hunbound]
  · rw [hvalue]
    cases value with
    | proc p => exact absurd rfl (hproc p)
    | integer _ | string _ | bool _ => rfl

theorem eval_call_of_ok {function : String} {world : World σ} {p : Proc}
    (h : (world.heap.procedure env function : Except (EvalError ε) Proc) = .ok p)
    (arguments : List Expr) :
    eval host env (.call function arguments) world
      = (evalArguments host env arguments world).andThen (apply host function p) := by
  rw [eval, Heap.procedure_eq_ok_iff.1 h]

theorem answer_apply (function : String) (p : Proc) (values : List Value) (world : World σ) :
    (apply host function p values world).answer = (host p values world).answer.mapError .host := by
  rw [apply]
  cases (host p values world).answer <;> rfl

end Recursive

namespace Machine

/-- What waiting calls do with a value that is handed to the innermost one. -/
def unwind (host : Host σ ε) (env : Env) :
    List Pending → Value → World σ → Evaluation σ ε Value
  | [], value, world => ⟨.ok value, world, #[]⟩
  | call :: outer, value, world =>
    ((Recursive.evalArguments host env call.rest world).andThen fun values world =>
      Recursive.apply host call.function call.proc (call.values.reverse ++ value :: values)
        world).andThen (unwind host env outer)

/-- What a state of the machine comes to. -/
def State.outcome (host : Host σ ε) (env : Env) (s : State σ) : Evaluation σ ε Value :=
  ((Recursive.eval host env s.next s.world).andThen (unwind host env s.stack)).after s.applications

/-- What a turn of the machine comes to. -/
def Turn.outcome (host : Host σ ε) (env : Env) : Turn σ ε → Evaluation σ ε Value
  | .next s => s.outcome host env
  | .done evaluation => evaluation

variable (host : Host σ ε) (env : Env)

/-- **The machine applies a procedure as the recursive evaluation does**, behind the applications
made so far. -/
theorem applyProc_eq_after (function : String) (p : Proc) (values : List Value) (world : World σ)
    (applications : Array Application) :
    applyProc host function p values world applications
      = (Recursive.apply host function p values world).after applications := by
  rw [applyProc, Evaluation.after, Recursive.answer_apply]
  simp [Recursive.apply]

theorem unwind_cons (call : Pending) (outer : List Pending) :
    unwind host env (call :: outer) = fun value world =>
      (Recursive.evalArguments host env call.rest world).andThen fun values world =>
        (Recursive.apply host call.function call.proc (call.values.reverse ++ value :: values)
          world).andThen (unwind host env outer) := by
  funext value world
  rw [unwind, Evaluation.andThen_assoc]

/-- A call whose awaited argument was not the last one goes on with the next argument. -/
theorem unwind_cons_of_rest {call : Pending} {e : Expr} {rest : List Expr}
    (h : call.rest = e :: rest) (outer : List Pending) (value : Value) (world : World σ) :
    unwind host env (call :: outer) value world
      = (Recursive.eval host env e world).andThen
          (unwind host env ({ call with values := value :: call.values, rest } :: outer)) := by
  simp only [unwind_cons, h, Recursive.evalArguments_cons_andThen, List.reverse_cons,
    List.append_assoc, List.singleton_append]

/-- A call whose awaited argument was the last one applies its procedure. -/
theorem unwind_cons_of_rest_nil {call : Pending} (h : call.rest = []) (outer : List Pending)
    (value : Value) (world : World σ) :
    unwind host env (call :: outer) value world
      = (Recursive.apply host call.function call.proc (value :: call.values).reverse world).andThen
          (unwind host env outer) := by
  simp only [unwind_cons, h, Recursive.evalArguments, Evaluation.ok_andThen, Evaluation.after_empty,
    List.reverse_cons]

/-- What follows an application does not depend on the applications before it. -/
theorem after_apply_andThen (function : String) (p : Proc) (values : List Value)
    (world : World σ) (applications : Array Application)
    (next : Value → World σ → Evaluation σ ε Value) :
    ((Recursive.apply host function p values world).andThen next).after applications
      = (applyProc host function p values world applications).andThen next := by
  rw [← Evaluation.after_andThen, ← applyProc_eq_after]

/-- **Handing a value to a stack keeps the promise of the stack.** The induction is on the calls
that the value completes one after the other. -/
theorem outcome_deliver (value : Value) (world : World σ) (applications : Array Application)
    (stack : List Pending) :
    (deliver host value world applications stack).outcome host env
      = (unwind host env stack value world).after applications := by
  fun_induction deliver host value world applications stack with
  | case1 => simp [Turn.outcome, unwind, Evaluation.after]
  | case2 value world applications call outer e rest hrest =>
    rw [unwind_cons_of_rest host env hrest]
    rfl
  | case3 value world applications call outer hrest applied value' hok ih =>
    rw [ih, unwind_cons_of_rest_nil host env hrest, after_apply_andThen]
    exact (Evaluation.andThen_of_ok hok _).symm
  | case4 value world applications call outer hrest applied e herror =>
    rw [unwind_cons_of_rest_nil host env hrest, after_apply_andThen]
    exact (Evaluation.andThen_of_error herror _).symm

/-- **A turn keeps the outcome of its state.** -/
theorem outcome_turn (s : State σ) : (turn host env s).outcome host env = s.outcome host env := by
  obtain ⟨stack, next, world, applications⟩ := s
  match next with
  | .atom (.integer _) | .atom (.string _) | .atom (.bool _) =>
    simp [turn, outcome_deliver, State.outcome, Recursive.eval]
  | .atom (.var name) =>
    simp only [turn, State.outcome, Recursive.eval_var]
    cases world.heap.value env name with
    | error e => simp [Turn.outcome, Evaluation.after]
    | ok value => simp [outcome_deliver]
  | .call function arguments =>
    simp only [turn, State.outcome]
    cases hp : (world.heap.procedure env function : Except (EvalError ε) Proc) with
    | error e => simp [Recursive.eval_call_of_error host env hp, Turn.outcome, Evaluation.after]
    | ok p =>
      rw [Recursive.eval_call_of_ok host env hp]
      -- Without arguments the procedure is applied in this turn, else the call starts to wait.
      cases arguments with
      | nil =>
        simp only [Recursive.evalArguments, Evaluation.ok_andThen, Evaluation.after_empty,
          after_apply_andThen]
        split
        · next value hok => rw [outcome_deliver, Evaluation.andThen_of_ok hok]
        · next e herror => exact (Evaluation.andThen_of_error herror _).symm
      | cons e rest =>
        simp only [Recursive.evalArguments_cons_andThen, Evaluation.andThen_assoc, Turn.outcome,
          State.outcome, unwind_cons, List.reverse_nil, List.nil_append]

/-- **A run ends in the outcome of the state that it starts from.** -/
theorem run_eq_outcome (s : State σ) : run host env s = s.outcome host env := by
  fun_induction run host env s with
  | case1 s s' hturn ih =>
    rw [ih, ← outcome_turn host env s, hturn]
    rfl
  | case2 s evaluation hturn =>
    rw [← outcome_turn host env s, hturn]
    rfl

/-- Evaluation begins without any waiting calls, so nothing is promised. -/
theorem outcome_start (e : Expr) (world : World σ) :
    (State.start e world).outcome host env = Recursive.eval host env e world := by
  rw [State.outcome, State.start, Evaluation.after_empty]
  exact Evaluation.andThen_ok _

end Machine

/-- **The machine and the recursive definition agree**: on the value or the error, on the world that
is left, and on the procedures applied. -/
theorem eval_eq_recursive (host : Host σ ε) (env : Env) (e : Expr) (world : World σ) :
    eval host env e world = Recursive.eval host env e world := by
  rw [eval, Machine.run_eq_outcome, Machine.outcome_start]

end HostedLisp
