import HostedLisp.Eval.Turns

/-!
# Every node is looked at once

What a state has still to look at are the occurrences inside the expression to look at and, behind
them, those inside the arguments that the waiting calls have not come to yet. A turn takes the first
of them away and leaves all others, in the same order, whether it opens a call or completes several
ones at once. So a run looks at the nodes of an expression in preorder and at none of them twice,
and it ends after at most as many turns as there are nodes.

## Main definitions

* `Machine.TurnKind` — the kinds of turns
* `Machine.State.remaining` — the occurrences that are still to be looked at
* `Machine.Awaits` — waiting calls that lead to an expression, one inside the other

## Main results

* `Machine.exists_turnKind` — all that a turn can do
* `Machine.exists_turn_leaves`, `Machine.remaining_of_turns` — a turn, and many turns, look at the
  first of the remaining occurrences
* `Machine.turns_eq_done`, `Machine.exists_turns_eq_next` — runs end, and those that succeed have
  looked at everything
* `Machine.turn_awaits`, `Machine.awaits_of_turns` — the waiting calls keep leading to the
  expression to look at
-/

namespace HostedLisp

variable {σ ε : Type} {host : Host σ ε} {env : Env}

namespace Machine

/-! ### Turns of four kinds -/

/-- Applies the procedure of a call whose arguments are complete, and hands its value on. -/
def complete (host : Host σ ε) (function : String) (p : Proc) (values : List Value)
    (world : World σ) (applications : Array Application) (outer : List Pending) : Turn σ ε :=
  let applied := applyProc host function p values world applications
  match applied.answer with
  | .ok value => deliver host value applied.world applied.applications outer
  | .error _ => .done applied

theorem deliver_of_rest {call : Pending} {e : Expr} {rest : List Expr} (h : call.rest = e :: rest)
    (host : Host σ ε) (value : Value) (world : World σ) (applications : Array Application)
    (outer : List Pending) :
    deliver host value world applications (call :: outer)
      = .next ⟨{ call with values := value :: call.values, rest } :: outer, e, world,
          applications⟩ := by
  simp only [deliver, h]

theorem deliver_of_rest_nil {call : Pending} (h : call.rest = []) (host : Host σ ε) (value : Value)
    (world : World σ) (applications : Array Application) (outer : List Pending) :
    deliver host value world applications (call :: outer)
      = complete host call.function call.proc (value :: call.values).reverse world applications
          outer := by
  simp only [deliver, h]
  rfl

/-- A call that is complete either fails or hands its value on. -/
theorem complete_cases {P : Turn σ ε → Prop} {outer : List Pending}
    (value : ∀ value world applications, P (deliver host value world applications outer))
    (failure : ∀ (evaluation : Evaluation σ ε Value) cause, evaluation.answer = .error cause →
      P (.done evaluation))
    (function : String) (p : Proc) (values : List Value) (world : World σ)
    (applications : Array Application) :
    P (complete host function p values world applications outer) := by
  rw [complete]
  split
  · exact value ..
  · next herror => exact failure _ _ herror

/-- What a turn from the state `s` can be, as a function of the host. -/
inductive TurnKind (s : State σ) : (Host σ ε → Turn σ ε) → Prop where
  /-- An atom has a value. -/
  | value {a : Atom} (next : s.next = .atom a) (value : Value) :
    TurnKind s fun host => deliver host value s.world s.applications s.stack
  /-- A name is looked up in vain. -/
  | failure (cause : EvalError ε) :
    TurnKind s fun _ => .done ⟨.error cause, s.world, s.applications⟩
  /-- A call begins to wait for its first argument. -/
  | entry {function : String} {e : Expr} {rest : List Expr}
    (next : s.next = .call function (e :: rest)) (p : Proc) :
    TurnKind s fun _ =>
      .next ⟨⟨function, p, e :: rest, [], rest⟩ :: s.stack, e, s.world, s.applications⟩
  /-- A call has no arguments to wait for. -/
  | completion {function : String} (next : s.next = .call function []) (p : Proc) :
    TurnKind s fun host => complete host function p [] s.world s.applications s.stack

/-- **Every turn is of one of the four kinds**, and of the same one for all hosts. -/
theorem exists_turnKind (env : Env) (s : State σ) :
    ∃ go : Host σ ε → Turn σ ε, (∀ host, turn host env s = go host) ∧ TurnKind s go := by
  obtain ⟨stack, next, world, applications⟩ := s
  match next with
  | .atom (.integer value) => exact ⟨_, fun _ => rfl, .value rfl (.integer value)⟩
  | .atom (.string content) => exact ⟨_, fun _ => rfl, .value rfl (.string content)⟩
  | .atom (.bool value) => exact ⟨_, fun _ => rfl, .value rfl (.bool value)⟩
  | .atom (.var name) =>
    cases hvalue : (world.heap.value env name : Except (EvalError ε) Value) with
    | error cause => exact ⟨_, fun _ => by simp only [turn, hvalue], .failure cause⟩
    | ok value => exact ⟨_, fun _ => by simp only [turn, hvalue], .value rfl value⟩
  | .call function arguments =>
    cases hp : (world.heap.procedure env function : Except (EvalError ε) Proc) with
    | error cause => exact ⟨_, fun _ => by simp only [turn, hp], .failure cause⟩
    | ok p =>
      cases arguments with
      | nil => exact ⟨_, fun _ => by simp only [turn, hp]; rfl, .completion rfl p⟩
      | cons e rest => exact ⟨_, fun _ => by simp only [turn, hp], .entry rfl p⟩

/-! ### What is still to be looked at -/

/-- The occurrences inside the arguments behind the awaited ones. -/
def occurrencesBehind : List Pending → List Occurrence
  | [] => []
  | call :: outer =>
    Expr.occurrencesFrom (awaitedPlace outer) (call.values.length + 1) call.rest
      ++ occurrencesBehind outer

/-- The occurrences that are still to be looked at. -/
def State.remaining (s : State σ) : List Occurrence :=
  s.next.occurrencesAt s.place ++ occurrencesBehind s.stack

theorem exists_remaining_eq (s : State σ) :
    ∃ others, s.remaining = ⟨s.place, s.next⟩ :: others := by
  obtain ⟨others, hnext⟩ := Expr.exists_occurrencesAt_eq s.place s.next
  exact ⟨others ++ occurrencesBehind s.stack, by rw [State.remaining, hnext, List.cons_append]⟩

/-- What remains behind the expression that a turn has looked at, said of what the turn leads to:
the remaining occurrences of the next state, or none when the evaluation has succeeded. -/
def Turn.Leaves (behind : List Occurrence) : Turn σ ε → Prop
  | .next s => s.remaining = behind
  | .done evaluation => ∀ value, evaluation.answer = .ok value → behind = []

theorem leaves_of_error {behind : List Occurrence} (evaluation : Evaluation σ ε Value)
    (cause : EvalError ε) (h : evaluation.answer = .error cause) :
    (Turn.done evaluation : Turn σ ε).Leaves behind := by
  intro value hok
  rw [h] at hok
  cases hok

/-- Handing on a value looks at nothing. The induction is on the calls that it completes. -/
theorem deliver_leaves (host : Host σ ε) (value : Value) (world : World σ)
    (applications : Array Application) (stack : List Pending) :
    (deliver host value world applications stack).Leaves (occurrencesBehind stack) := by
  induction stack generalizing value world applications with
  | nil => exact fun _ _ => rfl
  | cons call outer ih =>
    cases hrest : call.rest with
    | cons e rest =>
      rw [deliver_of_rest hrest]
      simp [Turn.Leaves, State.remaining, State.place, occurrencesBehind, awaitedPlace, hrest,
        Expr.occurrencesFrom]
    | nil =>
      rw [deliver_of_rest_nil hrest, occurrencesBehind, hrest, Expr.occurrencesFrom,
        List.nil_append]
      exact complete_cases ih leaves_of_error ..

/-- **A turn looks at the first of the remaining occurrences** and at no other one. -/
theorem exists_turn_leaves (host : Host σ ε) (env : Env) (s : State σ) :
    ∃ behind, s.remaining = ⟨s.place, s.next⟩ :: behind ∧
      (turn host env s).Leaves behind := by
  obtain ⟨go, hgo, kind⟩ := exists_turnKind (ε := ε) env s
  rw [hgo]
  cases kind with
  | value hnext value =>
    refine ⟨occurrencesBehind s.stack, ?_, deliver_leaves ..⟩
    rw [State.remaining, hnext, Expr.occurrencesAt, List.singleton_append]
  | failure cause =>
    obtain ⟨others, hothers⟩ := exists_remaining_eq s
    exact ⟨others, hothers, leaves_of_error _ cause rfl⟩
  | entry hnext p =>
    refine ⟨_, by rw [State.remaining, hnext, Expr.occurrencesAt, List.cons_append], ?_⟩
    simp [Turn.Leaves, State.remaining, State.place, occurrencesBehind, awaitedPlace,
      Expr.occurrencesFrom]
  | completion hnext p =>
    refine ⟨occurrencesBehind s.stack, ?_, ?_⟩
    · rw [State.remaining, hnext, Expr.occurrencesAt, Expr.occurrencesFrom, List.singleton_append]
    · exact complete_cases (deliver_leaves host · · · s.stack) leaves_of_error ..

/-! ### Many turns -/

theorem turns_succ_of_next {s s' : State σ} (h : turn host env s = .next s') (n : Nat) :
    turns host env (n + 1) s = turns host env n s' := by
  rw [turns, h]

theorem turns_succ_of_done {s : State σ} {evaluation : Evaluation σ ε Value}
    (h : turn host env s = .done evaluation) (n : Nat) :
    turns host env (n + 1) s = .done evaluation := by
  rw [turns, h]

/-- **Many turns** look at as many of the remaining occurrences, one after the other. -/
theorem remaining_of_turns {n : Nat} {s s' : State σ} (h : turns host env n s = .next s') :
    s'.remaining = s.remaining.drop n := by
  induction n generalizing s with
  | zero =>
    cases h
    rfl
  | succ n ih =>
    obtain ⟨behind, hremaining, hleaves⟩ := exists_turn_leaves host env s
    cases hturn : turn host env s with
    | done evaluation =>
      rw [turns_succ_of_done hturn] at h
      cases h
    | next next =>
      rw [hturn] at hleaves
      rw [turns_succ_of_next hturn] at h
      rw [ih h, hremaining, List.drop_succ_cons]
      exact congrArg (List.drop n) hleaves

/-- The turn that comes after `n` others looks at the remaining occurrence of that number. -/
theorem getElem?_remaining_of_turns {n : Nat} {s s' : State σ}
    (h : turns host env n s = .next s') : s.remaining[n]? = some ⟨s'.place, s'.next⟩ := by
  obtain ⟨others, hothers⟩ := exists_remaining_eq s'
  rw [← List.head?_drop, ← remaining_of_turns h, hothers]
  rfl

/-- **A run ends** after at most as many turns as there are remaining occurrences. -/
theorem turns_eq_done (host : Host σ ε) (env : Env) (s : State σ) :
    turns host env s.remaining.length s = .done (run host env s) := by
  fun_induction run host env s with
  | case1 s s' hturn ih =>
    obtain ⟨behind, hremaining, hleaves⟩ := exists_turn_leaves host env s
    rw [hturn] at hleaves
    rw [hremaining, List.length_cons, turns_succ_of_next hturn, ← hleaves]
    exact ih
  | case2 s evaluation hturn =>
    obtain ⟨behind, hremaining, -⟩ := exists_turn_leaves host env s
    rw [hremaining, List.length_cons, turns_succ_of_done hturn]

/-- **A run that succeeds has looked at all remaining occurrences.** -/
theorem exists_turns_eq_next {s : State σ} {value : Value} {n : Nat}
    (hok : (run host env s).answer = .ok value) (hn : n < s.remaining.length) :
    ∃ s', turns host env n s = .next s' := by
  fun_induction run host env s generalizing n with
  | case1 s s' hturn ih =>
    cases n with
    | zero => exact ⟨s, rfl⟩
    | succ n =>
      obtain ⟨behind, hremaining, hleaves⟩ := exists_turn_leaves host env s
      rw [hturn] at hleaves
      rw [turns_succ_of_next hturn]
      refine ih hok ?_
      rw [hremaining, ← hleaves] at hn
      exact Nat.lt_of_succ_lt_succ hn
  | case2 s evaluation hturn =>
    obtain ⟨behind, hremaining, hleaves⟩ := exists_turn_leaves host env s
    rw [hturn] at hleaves
    obtain rfl : behind = [] := hleaves value hok
    rw [hremaining] at hn
    obtain rfl : n = 0 := Nat.lt_one_iff.1 hn
    exact ⟨s, rfl⟩

/-! ### The calls that wait -/

/-- The waiting calls in `stack` lead from the expression `e` to `next`: each of them waits for the
next one as an argument and has the arguments behind it left. -/
def Awaits (e : Expr) : List Pending → Expr → Prop
  | [], next => next = e
  | call :: outer, next =>
    call.arguments[call.values.length]? = some next ∧
      call.rest = call.arguments.drop (call.values.length + 1) ∧ Awaits e outer call.expr

/-- Where a turn leads, the waiting calls lead to the expression to look at. -/
def Turn.Awaits (e : Expr) : Turn σ ε → Prop
  | .next s => Machine.Awaits e s.stack s.next
  | .done _ => True

/-- A value that is handed on leads to the argument behind that of the innermost call which has
one left. -/
theorem deliver_awaits {e next : Expr} {stack : List Pending} (h : Awaits e stack next)
    (host : Host σ ε) (value : Value) (world : World σ) (applications : Array Application) :
    (deliver host value world applications stack).Awaits e := by
  induction stack generalizing next value world applications with
  | nil => trivial
  | cons call outer ih =>
    obtain ⟨-, hdrop, houter⟩ := h
    cases hrest : call.rest with
    | cons argument rest =>
      rw [deliver_of_rest hrest]
      rw [hrest, eq_comm] at hdrop
      refine ⟨?_, ?_, houter⟩
      · rw [List.length_cons, ← List.head?_drop, hdrop]
        rfl
      · rw [List.length_cons, ← List.tail_drop, hdrop]
        rfl
    | nil =>
      rw [deliver_of_rest_nil hrest]
      exact complete_cases (ih houter) (fun _ _ _ => trivial) ..

/-- **A turn** keeps the waiting calls leading to the expression to look at. -/
theorem turn_awaits {e : Expr} {s : State σ} (h : Awaits e s.stack s.next) (host : Host σ ε)
    (env : Env) : (turn host env s).Awaits e := by
  obtain ⟨go, hgo, kind⟩ := exists_turnKind (ε := ε) env s
  rw [hgo]
  cases kind with
  | value hnext value => exact deliver_awaits h ..
  | failure cause => trivial
  | entry hnext p =>
    rw [hnext] at h
    exact ⟨rfl, rfl, h⟩
  | completion hnext p => exact complete_cases (deliver_awaits h host) (fun _ _ _ => trivial) ..

/-- **Many turns** do so, too. -/
theorem awaits_of_turns {e : Expr} {n : Nat} {s s' : State σ} (h : Awaits e s.stack s.next)
    (hturns : turns host env n s = .next s') : Awaits e s'.stack s'.next := by
  induction n generalizing s with
  | zero =>
    cases hturns
    exact h
  | succ n ih =>
    have hawaits := turn_awaits h host env
    cases hturn : turn host env s with
    | done evaluation =>
      rw [turns_succ_of_done hturn] at hturns
      cases hturns
    | next next =>
      rw [hturn] at hawaits
      rw [turns_succ_of_next hturn] at hturns
      exact ih hawaits hturns

/-- The place of a state is that of the expression to look at. -/
theorem Awaits.at?_awaitedPlace {e next : Expr} {stack : List Pending} (h : Awaits e stack next) :
    e.at? (awaitedPlace stack) = some next := by
  induction stack generalizing next with
  | nil => rw [awaitedPlace, Expr.at?_nil, show next = e from h]
  | cons call outer ih =>
    obtain ⟨hawaited, -, houter⟩ := h
    rw [awaitedPlace, Expr.at?_append, ih houter]
    simp [Pending.expr, hawaited]

/-- Every waiting call has fewer values than arguments. -/
theorem Awaits.length_lt {e next : Expr} {stack : List Pending} (h : Awaits e stack next) :
    ∀ call ∈ stack, call.values.length < call.arguments.length := by
  induction stack generalizing next with
  | nil => simp
  | cons first outer ih =>
    obtain ⟨hawaited, -, houter⟩ := h
    intro call hcall
    rcases List.mem_cons.1 hcall with rfl | hcall
    · exact (List.getElem?_eq_some_iff.1 hawaited).1
    · exact ih houter call hcall

/-- The outermost waiting call is the whole expression. -/
theorem Awaits.getLast? {e next : Expr} {stack : List Pending} (h : Awaits e stack next)
    {call : Pending} (hcall : stack.getLast? = some call) : call.expr = e := by
  induction stack generalizing next with
  | nil => cases hcall
  | cons first outer ih =>
    obtain ⟨-, -, houter⟩ := h
    cases outer with
    | nil =>
      obtain rfl : first = call := by simpa using hcall
      exact houter
    | cons second outer =>
      rw [List.getLast?_cons_cons] at hcall
      exact ih houter hcall

/-- A waiting call is the argument that the call around it waits for. -/
theorem Awaits.inner {e next : Expr} {stack : List Pending} (h : Awaits e stack next) {i : Nat}
    {inner outer : Pending} (hinner : stack[i]? = some inner)
    (houter : stack[i + 1]? = some outer) :
    outer.arguments[outer.values.length]? = some inner.expr := by
  induction stack generalizing next i with
  | nil => simp at hinner
  | cons first others ih =>
    obtain ⟨-, -, hothers⟩ := h
    cases i with
    | succ i => exact ih hothers (by simpa using hinner) (by simpa using houter)
    | zero =>
      obtain rfl : first = inner := by simpa using hinner
      cases others with
      | nil => simp at houter
      | cons second others =>
        obtain rfl : second = outer := by simpa using houter
        exact hothers.1

/-- **The stack of a state in full.** -/
theorem Awaits.standsIn {e : Expr} {s : State σ} (h : Awaits e s.stack s.next) : s.StandsIn e where
  outermost _ := h.getLast?
  waiting := h.length_lt
  inner _ _ _ := h.inner
  awaited call outer hstack := by
    rw [hstack] at h
    exact h.1
  whole hstack := by
    rw [hstack] at h
    exact h

end Machine

end HostedLisp
