import Mathlib
import HostedLisp.Expr.Postorder
import HostedLisp.Proofs.Eval.Unwinding

/-!
# The order in which procedures are applied

Names are looked up on the way into a tree and procedures are applied on the way out of it. So an
evaluation that succeeds applies one procedure for every call of its expression, in postorder, and
one that fails has applied those of the calls that were complete when it failed. Where it failed is
a place in the tree, and which calls are complete there is settled by the tree alone: this is
`Expr.ComesTo`.

Nothing else is done. The world that an evaluation leaves, and all that it tells, are what comes of
applying these procedures to these arguments in this order, and the procedures decide what that is:
they may rebind any name, also those that are still to be looked up.

## Main definitions

* `Expr.ComesTo` — which calls are complete when a walk through some trees comes to a node
* `Evaluation.calls`, `Host.replay` — the procedures applied; what comes of applying them again
* `Application.IsOf` — an application is that of a call, with its procedure and its values
* `Evaluation.FailsIn` — the node that is to blame for an error
* `Evaluation.Follows` — an evaluation applies the procedures of its expressions in postorder

## Main results

* `Evaluation.Follows.andThen`, `Recursive.follows_call` — evaluations in sequence, and of calls
* `Recursive.follows_eval` — every evaluation follows its expression
* `eval_calls_postorder` — the same of the machine, in full
-/

namespace HostedLisp

variable {σ ε α β : Type}

/-! ### Walks through trees -/

namespace Expr

/-- A walk through some trees from the left to the right comes to the tree `node` when the calls
`done` are complete and no other ones. -/
inductive ComesTo : List Expr → Expr → List (String × Nat) → Prop where
  /-- The walk begins with the first tree. -/
  | here {e : Expr} {es : List Expr} : ComesTo (e :: es) e []
  /-- It goes through the arguments of a call before that call is complete. -/
  | inside {function : String} {arguments es : List Expr} {node : Expr} {done : List (String × Nat)}
      (within : ComesTo arguments node done) : ComesTo (.call function arguments :: es) node done
  /-- It comes to the other trees when the calls of the first one are complete. -/
  | later {e : Expr} {es : List Expr} {node : Expr} {done : List (String × Nat)}
      (behind : ComesTo es node done) : ComesTo (e :: es) node (e.postorder ++ done)

/-- The name that has to be looked up for a node. -/
def lookedUp? : Expr → Option String
  | .atom (.var name) => some name
  | .atom _ => none
  | .call function _ => some function

theorem postorderAll_append (es fs : List Expr) :
    postorderAll (es ++ fs) = postorderAll es ++ postorderAll fs := by
  induction es with
  | nil => rfl
  | cons e es ih => simp [postorderAll, ih]

theorem postorderAll_singleton (e : Expr) : postorderAll [e] = e.postorder := by
  simp [postorderAll]

namespace ComesTo

variable {es : List Expr} {node : Expr} {done : List (String × Nat)}

/-- **The calls that are complete at a node come first**, and the calls of the node after them. -/
theorem append_postorder (h : ComesTo es node done) :
    done ++ node.postorder <+: postorderAll es := by
  induction h with
  | here => exact ⟨_, rfl⟩
  | @inside function arguments es node done within ih =>
    obtain ⟨others, hothers⟩ := ih
    refine ⟨others ++ (function, arguments.length) :: postorderAll es, ?_⟩
    simp only [postorderAll, postorder]
    rw [← hothers]
    simp
  | later behind ih =>
    obtain ⟨others, hothers⟩ := ih
    refine ⟨others, ?_⟩
    simp only [postorderAll]
    rw [← hothers]
    simp

theorem append_left (h : ComesTo es node done) (fs : List Expr) : ComesTo (es ++ fs) node done := by
  induction h with
  | here => exact .here
  | inside within _ => exact .inside within
  | later behind ih => exact .later ih

theorem append_right (h : ComesTo es node done) (fs : List Expr) :
    ComesTo (fs ++ es) node (postorderAll fs ++ done) := by
  induction fs with
  | nil => exact h
  | cons f fs ih =>
    have hlater : ComesTo (f :: (fs ++ es)) node (f.postorder ++ (postorderAll fs ++ done)) :=
      .later ih
    rwa [← List.append_assoc] at hlater

end ComesTo

end Expr

/-! ### Applying procedures again -/

/-- Applies the procedures of some applications once more, in order and to the same arguments. Gives
the world that is left and the events on the way. -/
def Host.replay (host : Host σ ε) : List Application → World σ → World σ × List Event
  | [], world => (world, [])
  | a :: others, world =>
    let outcome := host a.proc a.arguments world
    let rest := host.replay others outcome.world
    (rest.1, .applying a.function a.arguments.length :: (outcome.log.toList ++ rest.2))

theorem Host.replay_append (host : Host σ ε) (first second : List Application) (world : World σ) :
    host.replay (first ++ second) world
      = ((host.replay second (host.replay first world).1).1,
          (host.replay first world).2 ++ (host.replay second (host.replay first world).1).2) := by
  induction first generalizing world with
  | nil => rfl
  | cons a others ih => simp [replay, ih]

/-! ### What is applied -/

/-- An element of two lists together is one of the first list or of the second one. -/
theorem append_eq_append_cons {γ : Type} {first second earlier later : List γ} {a : γ}
    (h : first ++ second = earlier ++ a :: later) :
    (∃ others, first = earlier ++ a :: others) ∨
      ∃ more, earlier = first ++ more ∧ second = more ++ a :: later := by
  rcases List.append_eq_append_iff.1 h with ⟨more, rfl, hsecond⟩ | ⟨others, rfl, hlater⟩
  · exact .inr ⟨more, rfl, hsecond⟩
  · cases others with
    | nil => exact .inr ⟨[], by simp, by simpa using hlater.symm⟩
    | cons b others =>
      obtain ⟨rfl, -⟩ := List.cons.inj hlater
      exact .inl ⟨others, rfl⟩

namespace Application

/-- The call of an application, with its head and its number of arguments. -/
def call (a : Application) : String × Nat := (a.function, a.arguments.length)

/-- The application `a` is that of a call in the trees `es`, when the evaluation began in `world`
and the applications `earlier` came before. They are those of the calls that are complete when the
walk comes to the call, and those of its arguments. The head of the call is bound to the procedure
in the world between the two, and the values are those that the arguments have from there on. -/
def IsOf (host : Host σ ε) (env : Env) (es : List Expr) (world : World σ)
    (earlier : List Application) (a : Application) : Prop :=
  ∃ arguments done inside, earlier = done ++ inside ∧
    Expr.ComesTo es (.call a.function arguments) (done.map call) ∧
    (host.replay done world).1.heap.get? env a.function = some (.proc a.proc) ∧
    Recursive.evalArguments host env arguments (host.replay done world).1
      = ⟨.ok a.arguments, (host.replay earlier world).1, inside.toArray⟩

variable {host : Host σ ε} {env : Env} {world : World σ} {es fs : List Expr} {a : Application}
  {earlier : List Application}

theorem IsOf.mono (h : a.IsOf host env es world earlier)
    (hes : ∀ {node done}, Expr.ComesTo es node done → Expr.ComesTo fs node done) :
    a.IsOf host env fs world earlier := by
  obtain ⟨arguments, done, inside, hearlier, hnode, hcall⟩ := h
  exact ⟨arguments, done, inside, hearlier, hes hnode, hcall⟩

/-- Behind other trees an application has those of their calls before it. -/
theorem IsOf.after {first : List Application} (hfirst : first.map call = Expr.postorderAll es)
    (h : a.IsOf host env fs (host.replay first world).1 earlier) :
    a.IsOf host env (es ++ fs) world (first ++ earlier) := by
  obtain ⟨arguments, done, inside, rfl, hnode, hcall⟩ := h
  refine ⟨arguments, first ++ done, inside, (List.append_assoc ..).symm, ?_, ?_⟩
  · rw [List.map_append, hfirst]
    exact hnode.append_right es
  · rw [Host.replay_append, Host.replay_append]
    exact hcall

end Application

namespace Evaluation

/-- The calls whose procedures were applied. -/
def calls (evaluation : Evaluation σ ε α) : List (String × Nat) :=
  evaluation.applications.toList.map Application.call

/-- The log tells of every application and then what the host tells of it. -/
theorem toList_log (evaluation : Evaluation σ ε α) :
    evaluation.log.toList = evaluation.applications.toList.flatMap fun a =>
      .applying a.function a.arguments.length :: a.log.toList := by
  have loop (log : Log) (applications : List Application) :
      (applications.foldl (fun log a =>
          log.push (.applying a.function a.arguments.length) ++ a.log) log).toList
        = log.toList ++ applications.flatMap fun a =>
          .applying a.function a.arguments.length :: a.log.toList := by
    induction applications generalizing log with
    | nil => simp
    | cons a others ih => simp [ih]
  rw [log, ← Array.foldl_toList, loop]
  rfl

theorem calls_after (earlier : Evaluation σ ε β) (evaluation : Evaluation σ ε α) :
    (evaluation.after earlier.applications).calls = earlier.calls ++ evaluation.calls := by
  simp [calls, after]

/-! ### Where evaluations fail -/

/-- Where the evaluation of some expressions that began in `world` fails with an error: the node
that it has come to, and that this node is to blame. Where a name is looked up in vain, that happens
in the world that is left, so no procedure is applied any more. -/
def FailsIn (host : Host σ ε) (env : Env) (es : List Expr) (world : World σ)
    (evaluation : Evaluation σ ε α) : EvalError ε → Prop
  | .unbound name =>
    ∃ node, Expr.ComesTo es node evaluation.calls ∧ node.lookedUp? = some name ∧
      evaluation.world.heap.get? env name = none
  | .notAProc name =>
    ∃ arguments value, Expr.ComesTo es (.call name arguments) evaluation.calls ∧
      evaluation.world.heap.get? env name = some value ∧ ∀ p, value ≠ .proc p
  | .host cause =>
    ∃ function arguments done earlier last, Expr.ComesTo es (.call function arguments) done ∧
      evaluation.applications.toList = earlier ++ [last] ∧
      evaluation.calls = done ++ Expr.postorder (.call function arguments) ∧
      (host last.proc last.arguments (host.replay earlier world).1).answer = .error cause

variable {host : Host σ ε} {env : Env} {world : World σ} {es fs : List Expr}

theorem FailsIn.mono {evaluation : Evaluation σ ε α} {cause : EvalError ε}
    (h : evaluation.FailsIn host env es world cause)
    (hes : ∀ {node done}, Expr.ComesTo es node done → Expr.ComesTo fs node done) :
    evaluation.FailsIn host env fs world cause := by
  cases cause with
  | unbound name =>
    obtain ⟨node, hnode, hname⟩ := h
    exact ⟨node, hes hnode, hname⟩
  | notAProc name =>
    obtain ⟨arguments, value, hnode, hvalue⟩ := h
    exact ⟨arguments, value, hes hnode, hvalue⟩
  | host cause =>
    obtain ⟨function, arguments, done, earlier, last, hnode, hlast⟩ := h
    exact ⟨function, arguments, done, earlier, last, hes hnode, hlast⟩

/-- **An evaluation that fails has applied the procedures of the calls that come first.** -/
theorem FailsIn.calls {evaluation : Evaluation σ ε α} {cause : EvalError ε}
    (h : evaluation.FailsIn host env es world cause) :
    evaluation.calls <+: Expr.postorderAll es := by
  cases cause with
  | unbound name =>
    obtain ⟨node, hnode, -⟩ := h
    exact (List.prefix_append _ _).trans hnode.append_postorder
  | notAProc name =>
    obtain ⟨arguments, value, hnode, -⟩ := h
    exact (List.prefix_append _ _).trans hnode.append_postorder
  | host cause =>
    obtain ⟨function, arguments, done, earlier, last, hnode, -, hcalls, -⟩ := h
    rw [hcalls]
    exact hnode.append_postorder

/-- The calls of the trees before are complete when those behind fail. -/
theorem FailsIn.after {first : Evaluation σ ε α} {second : Evaluation σ ε β} {cause : EvalError ε}
    (hfirst : first.calls = Expr.postorderAll es)
    (hworld : (host.replay first.applications.toList world).1 = first.world)
    (h : second.FailsIn host env fs first.world cause) :
    (second.after first.applications).FailsIn host env (es ++ fs) world cause := by
  have hcalls : (second.after first.applications).calls = Expr.postorderAll es ++ second.calls := by
    rw [calls_after, hfirst]
  cases cause with
  | unbound name =>
    obtain ⟨node, hnode, hname⟩ := h
    exact ⟨node, hcalls ▸ hnode.append_right es, hname⟩
  | notAProc name =>
    obtain ⟨arguments, value, hnode, hvalue⟩ := h
    exact ⟨arguments, value, hcalls ▸ hnode.append_right es, hvalue⟩
  | host cause =>
    obtain ⟨function, arguments, done, earlier, last, hnode, happlications, hdone, hcause⟩ := h
    refine ⟨function, arguments, _, first.applications.toList ++ earlier, last,
      hnode.append_right es, ?_, ?_, ?_⟩
    · rw [Evaluation.after, Array.toList_append, happlications, List.append_assoc]
    · rw [hcalls, hdone, List.append_assoc]
    · rw [Host.replay_append, hworld]
      exact hcause

/-! ### Evaluations that follow their expressions -/

/-- An evaluation of some expressions that began in `world` applies the procedures of their calls in
postorder, up to the node where it fails, and does nothing else. -/
structure Follows (host : Host σ ε) (env : Env) (es : List Expr) (world : World σ)
    (evaluation : Evaluation σ ε α) : Prop where
  /-- With success all procedures have been applied. -/
  complete : ∀ a, evaluation.answer = .ok a → evaluation.calls = Expr.postorderAll es
  /-- Every procedure has been applied to the values of the arguments of its call. -/
  applied : ∀ earlier a later, evaluation.applications.toList = earlier ++ a :: later →
    a.IsOf host env es world earlier
  /-- An error comes from a node, and the calls complete there have been applied. -/
  failed : ∀ cause, evaluation.answer = .error cause → evaluation.FailsIn host env es world cause
  /-- The world and the log are those of applying the procedures in order. -/
  replayed : host.replay evaluation.applications.toList world
    = (evaluation.world, evaluation.log.toList)

theorem Follows.unapplied {answer : Except (EvalError ε) α}
    (hcomplete : ∀ a, answer = .ok a → Expr.postorderAll es = [])
    (hfailed : ∀ cause, answer = .error cause →
      (⟨answer, world, #[]⟩ : Evaluation σ ε α).FailsIn host env es world cause) :
    (⟨answer, world, #[]⟩ : Evaluation σ ε α).Follows host env es world where
  complete a h := (hcomplete a h).symm
  applied _ _ _ h := by simp at h
  failed := hfailed
  replayed := rfl

/-- A value that is there already. -/
theorem Follows.ok (hes : Expr.postorderAll es = []) (a : α) :
    (⟨.ok a, world, #[]⟩ : Evaluation σ ε α).Follows host env es world :=
  .unapplied (fun _ _ => hes) fun _ h => by cases h

/-- What has failed follows all expressions that it fails in. -/
theorem Follows.error {first : Evaluation σ ε α} {cause : EvalError ε}
    (hfirst : first.Follows host env es world) (hanswer : first.answer = .error cause)
    (hes : ∀ {node done}, Expr.ComesTo es node done → Expr.ComesTo fs node done) :
    (⟨.error cause, first.world, first.applications⟩ : Evaluation σ ε β).Follows host env fs
      world where
  complete _ h := by cases h
  applied earlier a later h := (hfirst.applied earlier a later h).mono hes
  failed cause' h := by
    obtain rfl : cause = cause' := Except.error.inj h
    exact FailsIn.mono (hfirst.failed cause hanswer) hes
  replayed := hfirst.replayed

/-- **One evaluation behind another** follows the expressions of both. -/
theorem Follows.andThen {first : Evaluation σ ε α} {next : α → World σ → Evaluation σ ε β}
    (hfirst : first.Follows host env es world)
    (hnext : ∀ a, first.answer = .ok a → (next a first.world).Follows host env fs first.world) :
    (first.andThen next).Follows host env (es ++ fs) world := by
  cases hanswer : first.answer with
  | error cause =>
    rw [andThen_eq_error hanswer]
    exact hfirst.error hanswer fun hnode => hnode.append_left fs
  | ok a =>
    have hsecond := hnext a hanswer
    have hcalls := hfirst.complete a hanswer
    rw [andThen_of_ok hanswer]
    have hworld : (host.replay first.applications.toList world).1 = first.world :=
      congrArg Prod.fst hfirst.replayed
    refine ⟨?_, ?_, ?_, ?_⟩
    · intro b hb
      rw [calls_after, hcalls, hsecond.complete b hb, Expr.postorderAll_append]
    · intro earlier a later h
      rw [Evaluation.after, Array.toList_append] at h
      rcases append_eq_append_cons h with ⟨others, hearlier⟩ | ⟨more, rfl, hmore⟩
      · exact (hfirst.applied earlier a others hearlier).mono fun hnode => hnode.append_left fs
      · have hbehind := hsecond.applied more a later hmore
        rw [← hworld] at hbehind
        exact .after hcalls hbehind
    · intro cause hcause
      exact .after hcalls hworld (hsecond.failed cause hcause)
    · rw [toList_log, Evaluation.after, Array.toList_append, Host.replay_append, hfirst.replayed,
        List.flatMap_append, ← toList_log, ← toList_log, hsecond.replayed]

end Evaluation

/-! ### Every evaluation -/

namespace Recursive

variable (host : Host σ ε) (env : Env)

/-- Every argument has one value. -/
theorem length_of_evalArguments {es : List Expr} {world : World σ} {values : List Value}
    (h : (evalArguments host env es world).answer = .ok values) : values.length = es.length := by
  induction es generalizing world values with
  | nil =>
    obtain rfl : [] = values := Except.ok.inj h
    rfl
  | cons e es ih =>
    obtain ⟨value, -, hothers⟩ := Evaluation.exists_of_andThen_eq_ok h
    obtain ⟨others, hvalues, hlast⟩ := Evaluation.exists_of_andThen_eq_ok hothers
    obtain rfl : value :: others = values := Except.ok.inj hlast
    rw [List.length_cons, List.length_cons, ih hvalues]

/-- **A call** applies its procedure when its arguments have values. -/
theorem follows_call {function : String} {arguments : List Expr} {p : Proc} {world : World σ}
    (hp : world.heap.get? env function = some (.proc p))
    (harguments : (evalArguments host env arguments world).Follows host env arguments world) :
    ((evalArguments host env arguments world).andThen (apply host function p)).Follows host env
      [.call function arguments] world := by
  obtain ⟨first, hfirst⟩ : ∃ first, evalArguments host env arguments world = first := ⟨_, rfl⟩
  have hlength {values : List Value} (h : first.answer = .ok values) :
      values.length = arguments.length := length_of_evalArguments host env (hfirst ▸ h)
  rw [hfirst] at harguments ⊢
  cases hanswer : first.answer with
  | error cause =>
    rw [Evaluation.andThen_eq_error hanswer]
    exact harguments.error hanswer .inside
  | ok values =>
    have hworld : (host.replay first.applications.toList world).1 = first.world :=
      congrArg Prod.fst harguments.replayed
    obtain ⟨log, hlog⟩ : ∃ log, (host p values first.world).log = log := ⟨_, rfl⟩
    have happlications : ((apply host function p values first.world).after
        first.applications).applications.toList
          = first.applications.toList ++ [⟨function, p, values, log⟩] := by
      rw [← hlog]
      exact Array.toList_append
    have hall : ((apply host function p values first.world).after
        first.applications).calls = Expr.postorder (.call function arguments) := by
      have hcalls := harguments.complete values hanswer
      rw [Evaluation.calls, happlications, List.map_append, Expr.postorder, ← hcalls,
        ← hlength hanswer]
      rfl
    rw [Evaluation.andThen_of_ok hanswer]
    refine ⟨?_, ?_, ?_, ?_⟩
    · intro value _
      rw [hall, Expr.postorderAll_singleton]
    · intro earlier a later h
      rw [happlications] at h
      rcases append_eq_append_cons h with ⟨others, hearlier⟩ | ⟨more, rfl, hmore⟩
      · exact (harguments.applied earlier a others hearlier).mono .inside
      · cases more with
        | cons b more => simp at hmore
        | nil =>
          obtain ⟨rfl, -⟩ := List.cons.inj hmore
          refine ⟨arguments, [], first.applications.toList, List.append_nil _, .here, hp, ?_⟩
          show evalArguments host env arguments world = _
          rw [List.append_nil, hworld, hfirst, ← hanswer]
    · -- The host is to blame, in the world that the arguments have left.
      intro cause hcause
      cases hhost : (host p values first.world).answer with
      | ok value => simp [apply, Evaluation.after, hhost] at hcause
      | error reason =>
        obtain rfl : cause = .host reason := by
          simpa [apply, Evaluation.after, hhost] using hcause.symm
        refine ⟨function, arguments, [], first.applications.toList, _, .here, happlications,
          hall, ?_⟩
        rw [hworld]
        exact hhost
    · rw [Evaluation.toList_log, happlications, Host.replay_append, harguments.replayed,
        List.flatMap_append, ← Evaluation.toList_log]
      simp [apply, Evaluation.after, Host.replay, hlog]

theorem follows_evalArguments {es : List Expr}
    (h : ∀ e ∈ es, ∀ world, (eval host env e world).Follows host env [e] world) (world : World σ) :
    (evalArguments host env es world).Follows host env es world := by
  induction es generalizing world with
  | nil => exact .ok rfl []
  | cons e es ih =>
    have hothers (value : Value) (world : World σ) :
        ((evalArguments host env es world).andThen fun values world =>
          ⟨.ok (value :: values), world, #[]⟩).Follows host env (es ++ []) world :=
      (ih (fun e he => h e (by simp [he])) world).andThen fun values _ => .ok rfl (value :: values)
    rw [List.append_nil] at hothers
    exact (h e (by simp) world).andThen fun value _ => hothers value _

/-- **Every evaluation follows its expression.** The induction is on the expression; a call follows
its arguments from the left to the right and then itself. -/
theorem follows_eval (e : Expr) (world : World σ) :
    (eval host env e world).Follows host env [e] world := by
  induction e generalizing world with
  | atom a =>
    cases a with
    | integer value => exact .ok (by rfl) (Value.integer value)
    | string content => exact .ok (by rfl) (Value.string content)
    | bool value => exact .ok (by rfl) (Value.bool value)
    | var name =>
      rw [eval_var]
      refine .unapplied (fun _ _ => rfl) ?_
      intro cause hcause
      obtain ⟨rfl, hunbound⟩ := Heap.value_eq_error_iff.1 hcause
      exact ⟨.atom (.var name), .here, rfl, hunbound⟩
  | call function arguments ih =>
    cases hp : (world.heap.procedure env function : Except (EvalError ε) Proc) with
    | error cause =>
      rw [eval_call_of_error host env hp]
      refine .unapplied (fun _ h => (by cases h)) ?_
      rintro cause' ⟨⟩
      rcases Heap.procedure_eq_error_iff.1 hp with ⟨rfl, hunbound⟩ | ⟨rfl, value, hvalue⟩
      · exact ⟨.call function arguments, .here, rfl, hunbound⟩
      · exact ⟨arguments, value, .here, hvalue⟩
    | ok p =>
      rw [eval_call_of_ok host env hp]
      exact follows_call host env (Heap.procedure_eq_ok_iff.1 hp)
        (follows_evalArguments host env ih world)

end Recursive

/-- An evaluation by the machine follows its expression, too. -/
theorem eval_follows (host : Host σ ε) (env : Env) (e : Expr) (world : World σ) :
    (eval host env e world).Follows host env [e] world := by
  rw [eval, Machine.run_eq_outcome, Machine.outcome_start]
  exact Recursive.follows_eval host env e world

/-- **Procedures are applied in postorder, one for every call.** An evaluation that succeeds applies
those of all calls. One that fails applies those of the calls that are complete at the node that is
to blame, and with it that of the node itself where a procedure has failed. Each of them has been
applied to the values of the arguments of its call, and in any case the world and the log are those
of applying just these procedures to these values in this order. -/
theorem eval_calls_postorder (host : Host σ ε) (env : Env) (e : Expr) (world : World σ) :
    let evaluation := eval host env e world
    (∀ value, evaluation.answer = .ok value → evaluation.calls = e.postorder) ∧
      (∀ cause, evaluation.answer = .error cause →
        evaluation.calls <+: e.postorder ∧ evaluation.FailsIn host env [e] world cause) ∧
      (∀ earlier a later, evaluation.applications.toList = earlier ++ a :: later →
        a.IsOf host env [e] world earlier) ∧
      host.replay evaluation.applications.toList world
        = (evaluation.world, evaluation.log.toList) := by
  intro evaluation
  have hfollows := eval_follows host env e world
  refine ⟨?_, ?_, hfollows.applied, hfollows.replayed⟩
  · intro value hvalue
    rw [hfollows.complete value hvalue, Expr.postorderAll_singleton]
  · intro cause hcause
    have hfailed := hfollows.failed cause hcause
    refine ⟨?_, hfailed⟩
    rw [← Expr.postorderAll_singleton]
    exact hfailed.calls

/-- The inner call is complete before a name is looked up in vain, and the outer one never is. -/
example :
    let host : Host Unit Unit := fun _ _ world => ⟨.ok (.bool true), world, ∅⟩
    let world : World Unit := ⟨(Heap.empty.ofList [("f", .proc ⟨0⟩)]).2, ()⟩
    (eval host ⟨0⟩ (.call "f" [.call "f" [], .atom (.var "x")]) world).calls = [("f", 0)] := by
  simp only [eval, Machine.run_eq_outcome]
  cbv

end HostedLisp
