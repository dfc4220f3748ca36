import Mathlib
import HostedLisp.Proofs.Eval.Steady
import HostedLisp.Proofs.Library.Pure
import HostedLisp.Proofs.Scope.Growth

/-!
# Only the names of an expression count

Where the procedures that an expression calls are pure, evaluating it in two scopes comes to the
same value or the same error as soon as its names, those of variables and those of heads, are bound
to the same there. Nothing else of the scopes counts: not how many there are along the chain, not
which of them binds a name, and not what is bound to other names.

Two scopes that are told apart by other names come from each other in a way that can be written
down. One enters new scopes, which are empty, and binds names that do not occur, in any scope of the
heap. This is `Expr.Spared`. What a spared name is bound to stays the same in every step.

## Main definitions

* `Expr.Spared` — scopes are entered and names bound, but none that occurs in the expression

## Main results

* `Expr.Spared.value` — the names of the expression are bound as before
* `eval_determined_by_names` — the outcome depends only on what the names are bound to
-/

namespace HostedLisp

variable {σ ε : Type}

/-! ### Names that are left alone -/

namespace Heap

variable {heap : Heap} {env : Env} {name x : String}

/-- An empty scope sees what the scope around it sees. -/
theorem value_extend (heap : Heap) (env : Env) (name : String) :
    ((heap.extend env).2.value (heap.extend env).1 name : Except (EvalError ε) Value)
      = heap.value env name := by
  rw [value_eq_value_iff]
  exact (heap.get?_alloc (some env) ∅ name).trans (by simp)

/-- A binding of another name is not seen, wherever it is made. -/
theorem value_define_of_ne (h : name ≠ x) (target : Env) (v : Value) :
    ((heap.define target x v).2.value env name : Except (EvalError ε) Value)
      = heap.value env name := by
  rw [(heap.binds_define target x v).value, if_neg fun hseen => h hseen.1]

end Heap

/-- The scopes of `heap` and the scope `env` in use turn into others, and the names of the
expression `e` are left alone meanwhile. -/
inductive Expr.Spared (e : Expr) (env : Env) (heap : Heap) : Env → Heap → Prop where
  /-- Nothing happens at first. -/
  | refl : e.Spared env heap env heap
  /-- A new scope inside the one in use is entered. -/
  | enter {env' : Env} {heap' : Heap} (before : e.Spared env heap env' heap') :
      e.Spared env heap (heap'.extend env').1 (heap'.extend env').2
  /-- A name that does not occur in `e` is bound in any scope. -/
  | define {env' : Env} {heap' : Heap} (before : e.Spared env heap env' heap') (target : Env)
      {x : String} (v : Value) (fresh : e.EveryName (· ≠ x)) :
      e.Spared env heap env' (heap'.define target x v).2
  /-- A name that does not occur in `e` is changed, as it is seen from any scope. -/
  | set {env' : Env} {heap' : Heap} (before : e.Spared env heap env' heap') (target : Env)
      {x : String} (v : Value) (fresh : e.EveryName (· ≠ x)) :
      e.Spared env heap env' (heap'.set target x v).2

/-- **Names that are left alone stay bound as they are.** The induction is on what happens, and a
change of a binding is a binding made somewhere. -/
theorem Expr.Spared.value {e : Expr} {env env' : Env} {heap heap' : Heap}
    (h : e.Spared env heap env' heap') :
    e.EveryName fun name =>
      (heap'.value env' name : Except (EvalError ε) Value) = heap.value env name := by
  induction h with
  | refl => exact e.everyName_of_forall fun _ => rfl
  | enter _ ih => exact ih.imp fun name hname => (Heap.value_extend ..).trans hname
  | define _ target v fresh ih | set _ target v fresh ih =>
    exact (ih.and fresh).imp fun name ⟨hname, hne⟩ => (Heap.value_define_of_ne hne ..).trans hname

/-! ### Names decide -/

/-- Procedures that are pure as seen from one scope are so as seen from another one that binds the
same names to them. -/
theorem Expr.CallsPure.of_value {host : Host σ ε} {env env' : Env} {heap heap' : Heap} {data : σ}
    {e : Expr} (pure : e.CallsPure host env ⟨heap, data⟩)
    (agree : e.EveryName fun name =>
      (heap'.value env' name : Except (EvalError ε) Value) = heap.value env name) :
    e.CallsPure host env' ⟨heap', data⟩ :=
  (pure.and agree.everyHead).imp fun _ ⟨hpure, hsame⟩ p hp =>
    hpure p ((Heap.value_eq_value_iff.1 hsame).symm.trans hp)

/-- What the names of an expression are bound to decides its value, in two heaps. -/
theorem eval_congr_of_callsPure {host : Host σ ε} {env env' : Env} {heap heap' : Heap} {data : σ}
    {e : Expr} (pure : e.CallsPure host env ⟨heap, data⟩)
    (agree : e.EveryName fun name =>
      (heap'.value env' name : Except (EvalError ε) Value) = heap.value env name) :
    (eval host env' e ⟨heap', data⟩).answer = (eval host env e ⟨heap, data⟩).answer := by
  have pure' : e.CallsPure host env' ⟨heap', data⟩ := pure.of_value agree
  have hnames : e.EveryName fun name => heap'.get? env' name = heap.get? env name :=
    agree.imp fun _ => Heap.value_eq_value_iff.1
  have hcalls : e.EveryHead fun function => ∀ p, heap'.get? env' function = some (.proc p) →
      ∀ values, (host p values ⟨heap', data⟩).answer = (host p values ⟨heap, data⟩).answer :=
    pure'.imp fun _ hpure p hp values => (hpure p hp).answer values heap' heap
  rw [(eval_of_callsPure pure').1, (eval_of_callsPure pure).1]
  exact Steady.eval_congr hnames hcalls

/-- **The value or the error of an expression is decided by what its names are bound to.** The
procedures that it calls are pure. Then it comes to the same in any scope of any heap in which each
of its names has the same value, or is as unbound. In particular it does after any new scopes have
been entered, and after names that do not occur in it have been bound, shadowed or changed in any
scope. -/
theorem eval_determined_by_names {host : Host σ ε} {env : Env} {heap : Heap} {data : σ} {e : Expr}
    (pure : e.CallsPure host env ⟨heap, data⟩) :
    (∀ env' heap', (e.EveryName fun name =>
        (heap'.value env' name : Except (EvalError ε) Value) = heap.value env name) →
      (eval host env' e ⟨heap', data⟩).answer = (eval host env e ⟨heap, data⟩).answer) ∧
    ∀ env' heap', e.Spared env heap env' heap' →
      (eval host env' e ⟨heap', data⟩).answer = (eval host env e ⟨heap, data⟩).answer :=
  ⟨fun _ _ agree => eval_congr_of_callsPure pure agree,
    fun _ _ spared => eval_congr_of_callsPure pure spared.value⟩

/-- A sum that fails at an unbound name. It does so as well behind two more scopes, one of which
shadows another value of `x`, and after `z` has been bound around it and shadowed. -/
theorem eval_determined_by_names_sum :
    let host := Library.host 1
    let add : Value := .proc Library.Builtin.add.proc
    let e : Expr := .call "+" [.atom (.var "x"), .atom (.var "y")]
    let heap := (Heap.empty.ofList [("+", add), ("x", .integer 1)]).2
    let around := (Heap.empty.ofList [("x", .integer 2), ("+", add)]).2
    let inside := (((around.extend ⟨0⟩).2.define ⟨1⟩ "x" (.integer 1)).2.extend ⟨1⟩).2
    let shadowing := ((heap.define ⟨0⟩ "z" (.integer 3)).2.extend ⟨0⟩).2.define ⟨1⟩ "z" (.integer 4)
    e.CallsPure host ⟨0⟩ ⟨heap, .start⟩ ∧
      (eval host ⟨0⟩ e ⟨heap, .start⟩).answer = .error (.unbound "y") ∧
      (e.EveryName fun name => (inside.value ⟨2⟩ name : Except (EvalError Library.Error) Value)
        = heap.value ⟨0⟩ name) ∧
      (eval host ⟨2⟩ e ⟨inside, .start⟩).answer = (eval host ⟨0⟩ e ⟨heap, .start⟩).answer ∧
      e.Spared ⟨0⟩ heap ⟨1⟩ shadowing.2 ∧
      (eval host ⟨1⟩ e ⟨shadowing.2, .start⟩).answer = (eval host ⟨0⟩ e ⟨heap, .start⟩).answer := by
  intro host add e heap around inside shadowing
  have hadd : heap.get? ⟨0⟩ "+" = some add := by cbv
  have pure : e.CallsPure host ⟨0⟩ ⟨heap, .start⟩ := by
    refine Expr.everyHead_call_iff.2 ⟨fun p hp => ?_, by simp [Expr.EveryHead, Expr.Every]⟩
    obtain rfl : Library.Builtin.add.proc = p :=
      Value.proc.inj (Option.some.inj (hadd.symm.trans hp))
    refine Library.pure_host fun routine hroutine values => ?_
    cases hroutine
    rfl
  have agree : e.EveryName fun name =>
      (inside.value ⟨2⟩ name : Except (EvalError Library.Error) Value) = heap.value ⟨0⟩ name := by
    refine Expr.everyName_call_iff.2 ⟨by cbv, ?_⟩
    simp only [List.forall_mem_cons, List.not_mem_nil, false_implies, implies_true, and_true]
    exact ⟨by cbv, by cbv⟩
  have outcome : (eval host ⟨0⟩ e ⟨heap, .start⟩).answer = .error (.unbound "y") := by
    simp only [eval, Machine.run_eq_outcome]
    cbv
  have fresh : e.EveryName (· ≠ "z") := by
    simp [e, Expr.EveryName, Expr.Every, Expr.EveryAll]
  have spared : e.Spared ⟨0⟩ heap ⟨1⟩ shadowing.2 :=
    ((Expr.Spared.refl.define ⟨0⟩ (.integer 3) fresh).enter).define ⟨1⟩ (.integer 4) fresh
  obtain ⟨hagree, hspared⟩ := eval_determined_by_names pure
  exact ⟨pure, outcome, agree, hagree _ _ agree, spared, hspared _ _ spared⟩

end HostedLisp
