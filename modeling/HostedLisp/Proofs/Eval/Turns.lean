import Mathlib
import HostedLisp.Proofs.Eval.Applications
import HostedLisp.Proofs.Eval.Kept
import HostedLisp.Proofs.Eval.Visits

/-!
# Evaluations turn by turn

A turn applies the procedures of calls that enclose the expression it looks at, from the inside to
the outside: of that expression itself, if it is a call without arguments, and of the waiting calls
whose last argument it completes. When a waiting call has no arguments left, it has one value less
than arguments, so its procedure is applied to as many values as the call has arguments.

These applications are all that is asked of the host. A turn with another host that does the same at
them is the same turn, whatever the other host does elsewhere. This is the sense in which an
evaluation ends as soon as the procedures that it applies do: the number of turns is bounded by the
number of nodes, and between two turns nothing else is waited for.

## Main definitions

* `Machine.Applies` — what a turn applies, and that it asks nothing else of its host

## Main results

* `Machine.turn_applies`, `Machine.run_applies` — a turn, and a run
* `turns_of_evaluation` — everything about the turns of an evaluation
-/

namespace HostedLisp

variable {σ ε : Type} {host : Host σ ε} {env : Env}

theorem Host.agreesAt_append {host' : Host σ ε} {first second : List Application}
    {world : World σ} :
    host.AgreesAt host' (first ++ second) world ↔
      host.AgreesAt host' first world ∧
        host.AgreesAt host' second (host.replay first world).1 := by
  induction first generalizing world with
  | nil => simp [AgreesAt, replay]
  | cons a others ih => simp [AgreesAt, replay, ih, and_assoc]

namespace Machine

/-! ### One turn -/

/-- From `world` on, and behind `applications`, the turn that depends on the host as `go` says makes
the applications `applied`: of the first ones of `calls`, each to as many values as the call has
arguments. It asks nothing else of the host. -/
structure Applies (host : Host σ ε) (world : World σ) (applications : Array Application)
    (calls : List (String × Nat)) (go : Host σ ε → Turn σ ε) (applied : List Application) :
    Prop where
  /-- The applications come behind the earlier ones. -/
  behind : (go host).applications = applications.toList ++ applied
  /-- They are those of the first calls. -/
  ofCalls : applied.map Application.call <+: calls
  /-- They lead to the world that the turn leaves. -/
  leaves : (go host).world = (host.replay applied world).1
  /-- A host that does the same at them makes the same turn. -/
  agrees : ∀ host', host.AgreesAt host' applied world → go host' = go host

/-- A call that is complete is applied, and then its value is handed on. -/
theorem complete_applies {outer : List Pending} {calls : List (String × Nat)}
    (h : ∀ value world applications, ∃ applied, Applies host world applications calls
      (fun host => deliver host value world applications outer) applied)
    (function : String) (p : Proc) (values : List Value) (world : World σ)
    (applications : Array Application) :
    ∃ applied, Applies host world applications ((function, values.length) :: calls)
      (fun host => complete host function p values world applications outer) applied := by
  obtain ⟨a, ha⟩ : ∃ a, a = Application.mk function p values (host p values world).log := ⟨_, rfl⟩
  cases hanswer : (host p values world).answer with
  | error cause =>
    have hcomplete (host' : Host σ ε) (hsame : host' p values world = host p values world) :
        complete host' function p values world applications outer
          = .done ⟨.error (.host cause), (host p values world).world, applications.push a⟩ := by
      simp [complete, applyProc, hsame, hanswer, Except.mapError, ha]
    refine ⟨[a], ?_, ?_, ?_, ?_⟩
    · simp [hcomplete host rfl, Turn.applications]
    · simp [ha, Application.call]
    · simp [hcomplete host rfl, Turn.world, Host.replay, ha]
    · rintro host' ⟨hsame, -⟩
      rw [ha] at hsame
      rw [hcomplete host' hsame, hcomplete host rfl]
  | ok value =>
    have hcomplete (host' : Host σ ε) (hsame : host' p values world = host p values world) :
        complete host' function p values world applications outer
          = deliver host' value (host p values world).world (applications.push a) outer := by
      simp [complete, applyProc, hsame, hanswer, Except.mapError, ha]
    obtain ⟨applied, happlied⟩ := h value (host p values world).world (applications.push a)
    refine ⟨a :: applied, ?_, ?_, ?_, ?_⟩
    · rw [hcomplete host rfl, happlied.behind]
      simp
    · rw [List.map_cons, ha]
      exact List.cons_prefix_cons.2 ⟨rfl, happlied.ofCalls⟩
    · rw [hcomplete host rfl, happlied.leaves, ha]
      rfl
    · rintro host' ⟨hsame, hothers⟩
      rw [ha] at hsame hothers
      rw [hcomplete host' hsame, hcomplete host rfl]
      exact happlied.agrees host' hothers

/-- What does not apply anything asks nothing of the host. -/
theorem Applies.nothing {world : World σ} {applications : Array Application}
    {calls : List (String × Nat)} {t : Turn σ ε}
    (happlications : t.applications = applications.toList) (hworld : t.world = world) :
    Applies host world applications calls (fun _ => t) [] where
  behind := by rw [happlications, List.append_nil]
  ofCalls := List.nil_prefix
  leaves := hworld
  agrees _ _ := rfl

/-- Handing on a value applies the innermost waiting calls, as far as it completes them. -/
theorem deliver_applies {e next : Expr} {stack : List Pending} (h : Awaits e stack next)
    (host : Host σ ε) (value : Value) (world : World σ) (applications : Array Application) :
    ∃ applied, Applies host world applications
      ((stack.map Pending.expr).filterMap Expr.signature?)
      (fun host => deliver host value world applications stack) applied := by
  induction stack generalizing next value world applications with
  | nil => exact ⟨[], .nothing rfl rfl⟩
  | cons call outer ih =>
    obtain ⟨hawaited, hdrop, houter⟩ := h
    cases hrest : call.rest with
    | cons e rest =>
      simp only [deliver_of_rest hrest]
      exact ⟨[], .nothing rfl rfl⟩
    | nil =>
      -- The awaited argument was the last one, so now there are as many values as arguments.
      have hlength : (value :: call.values).reverse.length = call.arguments.length := by
        have hlast := List.drop_eq_nil_iff.1 (hdrop.symm.trans hrest)
        have hmore := (List.getElem?_eq_some_iff.1 hawaited).1
        rw [List.length_reverse, List.length_cons]
        omega
      have hcall : ((call :: outer).map Pending.expr).filterMap Expr.signature?
          = (call.function, (value :: call.values).reverse.length)
            :: (outer.map Pending.expr).filterMap Expr.signature? := by
        rw [hlength]
        rfl
      simp only [deliver_of_rest_nil hrest, hcall]
      exact complete_applies (ih houter) ..

/-- **A turn applies the innermost of the calls that enclose the expression to look at.** -/
theorem turn_applies {e : Expr} {s : State σ} (h : Awaits e s.stack s.next) (host : Host σ ε)
    (env : Env) :
    ∃ applied, Applies host s.world s.applications (s.enclosing.filterMap Expr.signature?)
      (fun host => turn host env s) applied := by
  obtain ⟨go, hgo, kind⟩ := exists_turnKind (ε := ε) env s
  simp only [hgo]
  cases kind with
  | value hnext value =>
    rw [State.enclosing, hnext]
    exact deliver_applies h ..
  | failure cause => exact ⟨[], .nothing rfl rfl⟩
  | entry hnext p => exact ⟨[], .nothing rfl rfl⟩
  | completion hnext p =>
    rw [State.enclosing, hnext]
    exact complete_applies (deliver_applies h host) _ p [] ..

/-! ### A run -/

/-- What encloses the expression to look at stands inside the whole expression. -/
theorem Awaits.exists_place {e next : Expr} {stack : List Pending} (h : Awaits e stack next) :
    ∀ f ∈ next :: stack.map Pending.expr, ∃ place, e.at? place = some f := by
  induction stack generalizing next with
  | nil =>
    intro f hf
    obtain rfl : f = next := by simpa using hf
    exact ⟨[], h.at?_awaitedPlace⟩
  | cons call outer ih =>
    intro f hf
    rcases List.mem_cons.1 hf with rfl | hf
    · exact ⟨_, h.at?_awaitedPlace⟩
    · exact ih h.2.2 f hf

/-- The call of an application in the list of some calls stands inside the whole expression. -/
theorem exists_place_of_applies {e : Expr} {s : State σ} {applied : List Application}
    (h : Awaits e s.stack s.next)
    (hcalls : applied.map Application.call <+: s.enclosing.filterMap Expr.signature?) :
    ∀ a ∈ applied, ∃ place arguments, e.at? place = some (.call a.function arguments) ∧
      a.arguments.length = arguments.length := by
  intro a ha
  obtain ⟨f, hf, hsignature⟩ := List.mem_filterMap.1 (hcalls.subset (List.mem_map_of_mem ha))
  obtain ⟨place, hplace⟩ := h.exists_place f hf
  cases f with
  | atom _ => cases hsignature
  | call function arguments =>
    obtain ⟨rfl, hlength⟩ := Prod.mk.inj (Option.some.inj hsignature)
    exact ⟨place, arguments, hplace, hlength.symm⟩

/-- **A run applies procedures of calls in the expression**, each to as many values as the call has
arguments, and asks nothing else of the host: another host that does the same at these applications
leads through the same turns. -/
theorem run_applies {e : Expr} {s : State σ} (h : Awaits e s.stack s.next) (host : Host σ ε)
    (env : Env) :
    ∃ applied, (run host env s).applications.toList = s.applications.toList ++ applied ∧
      (∀ a ∈ applied, ∃ place arguments, e.at? place = some (.call a.function arguments) ∧
        a.arguments.length = arguments.length) ∧
      ∀ host', host.AgreesAt host' applied s.world →
        ∀ n, turns host' env n s = turns host env n s := by
  fun_induction run host env s with
  | case1 s s' hturn ih =>
    obtain ⟨first, hfirst⟩ := turn_applies h host env
    have hnext := turn_awaits h host env
    have happlications := hfirst.behind
    have hworld := hfirst.leaves
    rw [hturn] at hnext happlications hworld
    obtain ⟨others, hothers, hplaces, hagrees⟩ := ih hnext
    refine ⟨first ++ others, ?_, ?_, ?_⟩
    · rw [hothers, show s'.applications.toList = _ from happlications, List.append_assoc]
    · intro a ha
      rcases List.mem_append.1 ha with ha | ha
      · exact exists_place_of_applies h hfirst.ofCalls a ha
      · exact hplaces a ha
    · intro host' hboth n
      obtain ⟨hsame, hbehind⟩ := Host.agreesAt_append.1 hboth
      rw [← show s'.world = _ from hworld] at hbehind
      cases n with
      | zero => rfl
      | succ n =>
        rw [turns_succ_of_next ((hfirst.agrees host' hsame).trans hturn),
          turns_succ_of_next hturn, hagrees host' hbehind n]
  | case2 s evaluation hturn =>
    obtain ⟨applied, happlied⟩ := turn_applies h host env
    have happlications := happlied.behind
    rw [hturn] at happlications
    refine ⟨applied, happlications, exists_place_of_applies h happlied.ofCalls, ?_⟩
    intro host' hsame n
    cases n with
    | zero => rfl
    | succ n =>
      rw [turns_succ_of_done ((happlied.agrees host' hsame).trans hturn),
        turns_succ_of_done hturn]

theorem remaining_start (e : Expr) (world : World σ) :
    (State.start e world).remaining = e.occurrencesAt [] := List.append_nil _

/-- A state at a place of an expression. -/
theorem getElem?_place_of_turns {e : Expr} {world : World σ} {n : Nat} {s : State σ}
    (h : turns host env n (.start e world) = .next s) :
    ((e.occurrencesAt []).map Occurrence.place)[n]? = some s.place := by
  rw [List.getElem?_map, ← remaining_start e world, getElem?_remaining_of_turns h]
  rfl

end Machine

/-- **The turns of an evaluation.** At every turn the waiting calls lead from the expression that is
evaluated to the one that is looked at, each of them with fewer values than arguments, and the turn
applies procedures of the calls that enclose it, each to as many values as its call has arguments.
No place is looked at in two turns, and with success every place is looked at in one. So there are
at most as many turns as nodes, and then the evaluation is over. All it asks of the host are the
applications that it makes: with another host that does the same at these, all turns are the
same. -/
theorem turns_of_evaluation (host : Host σ ε) (env : Env) (e : Expr) (world : World σ) :
    let start : Machine.State σ := .start e world
    let evaluation := eval host env e world
    (∀ n s, Machine.turns host env n start = .next s →
      s.StandsIn e ∧ e.at? s.place = some s.next ∧
        ∃ applied, (Machine.turn host env s).applications = s.applications.toList ++ applied ∧
          applied.map Application.call <+: s.enclosing.filterMap Expr.signature?) ∧
    (∀ m n s s', Machine.turns host env m start = .next s →
      Machine.turns host env n start = .next s' → s.place = s'.place → m = n) ∧
    (∀ value, evaluation.answer = .ok value → ∀ place node, e.at? place = some node →
      ∃ n s, Machine.turns host env n start = .next s ∧ s.place = place) ∧
    Machine.turns host env e.nodes start = .done evaluation ∧
    (∀ a ∈ evaluation.applications, ∃ place arguments,
      e.at? place = some (.call a.function arguments) ∧
        a.arguments.length = arguments.length) ∧
    ∀ host', host.AgreesAt host' evaluation.applications.toList world →
      ∀ n, Machine.turns host' env n start = Machine.turns host env n start := by
  intro start evaluation
  have hstart : Machine.Awaits e start.stack start.next := rfl
  have hlength : start.remaining.length = e.nodes := by
    rw [Machine.remaining_start, Expr.length_occurrencesAt]
  obtain ⟨applied, happlied, hplaces, hagrees⟩ := Machine.run_applies hstart host env
  obtain rfl : evaluation.applications.toList = applied := happlied
  refine ⟨?_, ?_, ?_, ?_, ?_, hagrees⟩
  · intro n s hs
    have hawaits := Machine.awaits_of_turns hstart hs
    obtain ⟨applied, happlied⟩ := Machine.turn_applies hawaits host env
    exact ⟨hawaits.standsIn, hawaits.at?_awaitedPlace, applied, happlied.behind,
      happlied.ofCalls⟩
  · intro m n s s' hm hn hplace
    have hfirst := Machine.getElem?_place_of_turns hm
    have hsecond := Machine.getElem?_place_of_turns hn
    have hlt := (List.getElem?_eq_some_iff.1 hfirst).1
    rw [hplace, ← hsecond] at hfirst
    exact (List.getElem?_inj hlt (Expr.nodup_place_occurrencesAt [] e)).1 hfirst
  · intro value hok place node hnode
    have hmem : ⟨place, node⟩ ∈ start.remaining := by
      rw [Machine.remaining_start]
      exact Expr.mem_occurrencesAt_iff.2 ⟨place, rfl, hnode⟩
    obtain ⟨n, hn, hat⟩ := List.getElem_of_mem hmem
    obtain ⟨s, hs⟩ := Machine.exists_turns_eq_next hok hn
    have hplace := Machine.getElem?_remaining_of_turns hs
    rw [List.getElem?_eq_getElem hn, hat] at hplace
    exact ⟨n, s, hs, congrArg Occurrence.place (Option.some.inj hplace).symm⟩
  · rw [← hlength]
    exact Machine.turns_eq_done host env start
  · intro a ha
    exact hplaces a (Array.mem_toList_iff.2 ha)

end HostedLisp
