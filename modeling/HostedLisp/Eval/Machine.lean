import HostedLisp.Eval.World
import HostedLisp.Expr.Basic

/-!
# Evaluating expressions

A call is evaluated by looking up its head, evaluating its arguments from the left to the right, and
applying the procedure found to their values. The first error ends the evaluation. The procedure is
the one that the head was bound to before any argument was evaluated, even when an argument binds
the name to another one.

Evaluation is a machine. A state holds the expression to look at next and a stack of calls whose
arguments are not complete; a turn of the machine looks at one expression and hands finished values
to the stack, applying every call whose last argument they are. Each node of an expression is looked
at in one turn, so a run ends after at most as many turns as there are nodes.

## Main definitions

* `Machine.Pending`, `Machine.State`, `Machine.turn` — calls that wait for arguments, states and
  turns of the machine
* `eval`, `evalScript` — the value of an expression; the last of the values of some expressions

## Main results

* `Machine.work_lt_of_turn` — every turn leaves less work
-/

namespace HostedLisp

variable {σ ε : Type}

namespace Machine

/-! ### States -/

/-- A call that waits for the value of one of its arguments. -/
structure Pending where
  /-- The head of the call. -/
  function : String
  /-- The procedure that the head was bound to. -/
  proc : Proc
  /-- All arguments of the call. -/
  arguments : List Expr
  /-- The values of the arguments in front of the awaited one, the last one first. -/
  values : List Value
  /-- The arguments behind the awaited one. -/
  rest : List Expr

/-- A state of the machine. -/
structure State (σ : Type) where
  /-- The calls that wait for an argument, the innermost one first. -/
  stack : List Pending
  /-- The expression to look at. -/
  next : Expr
  /-- The world at this time. -/
  world : World σ
  /-- The procedures applied so far. -/
  applications : Array Application

/-- What a turn of the machine leads to. -/
inductive Turn (σ ε : Type) where
  /-- Another expression has to be looked at. -/
  | next (state : State σ)
  /-- The evaluation is over. -/
  | done (evaluation : Evaluation σ ε Value)

/-- The state in which the evaluation of `e` begins. -/
def State.start (e : Expr) (world : World σ) : State σ := ⟨[], e, world, #[]⟩

/-! ### Turns -/

/-- Applies a procedure as the last thing done so far. -/
def applyProc (host : Host σ ε) (function : String) (p : Proc) (values : List Value)
    (world : World σ) (applications : Array Application) : Evaluation σ ε Value :=
  let outcome := host p values world
  ⟨outcome.answer.mapError .host, outcome.world,
    applications.push ⟨function, p, values, outcome.log⟩⟩

/-- Hands a value to the innermost waiting call, and applies every call that it completes. -/
def deliver (host : Host σ ε) (value : Value) (world : World σ)
    (applications : Array Application) : List Pending → Turn σ ε
  | [] => .done ⟨.ok value, world, applications⟩
  | call :: outer =>
    match call.rest with
    | e :: rest =>
      .next ⟨{ call with values := value :: call.values, rest } :: outer, e, world, applications⟩
    | [] =>
      let applied := applyProc host call.function call.proc (value :: call.values).reverse world
        applications
      match applied.answer with
      | .ok value => deliver host value applied.world applied.applications outer
      | .error _ => .done applied

/-- Looks at the next expression. -/
def turn (host : Host σ ε) (env : Env) (s : State σ) : Turn σ ε :=
  match s.next with
  | .atom (.integer value) => deliver host (.integer value) s.world s.applications s.stack
  | .atom (.string content) => deliver host (.string content) s.world s.applications s.stack
  | .atom (.bool value) => deliver host (.bool value) s.world s.applications s.stack
  | .atom (.var name) =>
    match s.world.heap.value env name with
    | .ok value => deliver host value s.world s.applications s.stack
    | .error e => .done ⟨.error e, s.world, s.applications⟩
  | .call function arguments =>
    match s.world.heap.procedure env function with
    | .error e => .done ⟨.error e, s.world, s.applications⟩
    | .ok p =>
      match arguments with
      | e :: rest =>
        .next ⟨⟨function, p, arguments, [], rest⟩ :: s.stack, e, s.world, s.applications⟩
      | [] =>
        let applied := applyProc host function p [] s.world s.applications
        match applied.answer with
        | .ok value => deliver host value applied.world applied.applications s.stack
        | .error _ => .done applied

/-! ### Every turn leaves less work -/

/-- The number of nodes that waiting calls still have to look at. -/
def workBehind : List Pending → Nat
  | [] => 0
  | call :: outer => Expr.nodesAll call.rest + workBehind outer

/-- The number of nodes that are still to be looked at. -/
def State.work (s : State σ) : Nat := s.next.nodes + workBehind s.stack

theorem work_le_of_deliver {host : Host σ ε} {value : Value} {world : World σ}
    {applications : Array Application} {stack : List Pending} {s : State σ}
    (h : deliver host value world applications stack = .next s) :
    s.work ≤ workBehind stack := by
  fun_induction deliver host value world applications stack with
  | case1 => cases h
  | case2 _ _ _ _ _ e rest hrest =>
    cases h
    simp [State.work, workBehind, hrest, Expr.nodesAll]
    omega
  | case3 _ _ _ _ _ _ _ _ _ ih =>
    have := ih h
    simp only [workBehind]
    omega
  | case4 => cases h

/-- Every turn leaves less work. -/
theorem work_lt_of_turn {host : Host σ ε} {env : Env} {s s' : State σ}
    (h : turn host env s = .next s') : s'.work < s.work := by
  have hpos := s.next.nodes_pos
  have hdeliver : ∀ value world applications,
      deliver host value world applications s.stack = .next s' → s'.work < s.work :=
    fun _ _ _ h => by
      have := work_le_of_deliver h
      simp only [State.work] at this ⊢
      omega
  unfold turn at h
  split at h
  · exact hdeliver _ _ _ h
  · exact hdeliver _ _ _ h
  · exact hdeliver _ _ _ h
  · split at h
    · exact hdeliver _ _ _ h
    · cases h
  · next heq =>
    split at h
    · cases h
    · split at h
      · cases h
        simp only [State.work, workBehind, heq, Expr.nodes, Expr.nodesAll]
        omega
      · simp only at h
        split at h
        · exact hdeliver _ _ _ h
        · cases h

/-! ### Runs -/

/-- Runs the machine until the evaluation is over. -/
def run (host : Host σ ε) (env : Env) (s : State σ) : Evaluation σ ε Value :=
  match _h : turn host env s with
  | .next s' => run host env s'
  | .done evaluation => evaluation
termination_by s.work
decreasing_by exact work_lt_of_turn _h

end Machine

/-- Evaluates an expression in the scope `env`. -/
def eval (host : Host σ ε) (env : Env) (e : Expr) (world : World σ) : Evaluation σ ε Value :=
  Machine.run host env (.start e world)

/-- Evaluates the remaining expressions of a script, whose last value so far is `last?`. -/
def evalScriptOnto (host : Host σ ε) (env : Env) (last? : Option Value)
    (applications : Array Application) : List Expr → World σ → Evaluation σ ε (Option Value)
  | [], world => ⟨.ok last?, world, applications⟩
  | e :: es, world =>
    let evaluation := eval host env e world
    let applications := applications ++ evaluation.applications
    match evaluation.answer with
    | .ok value => evalScriptOnto host env (some value) applications es evaluation.world
    | .error cause => ⟨.error cause, evaluation.world, applications⟩

/-- Evaluates expressions one after the other and gives the value of the last one, if there are
any. -/
def evalScript (host : Host σ ε) (env : Env) (es : List Expr) (world : World σ) :
    Evaluation σ ε (Option Value) :=
  evalScriptOnto host env none #[] es world

end HostedLisp
