import Mathlib
import HostedLisp.Proofs.Eval.Steady
import HostedLisp.Proofs.Library.Pure
import HostedLisp.Proofs.Scope.Growth

/-!
# Replacing an expression by its value

Where all procedures are pure, an argument of a call may be evaluated beforehand and replaced by a
variable that is bound to its value, in a scope made for this inside the one in use. Nothing else is
seen there in another way as long as the name of the variable is new. So the expression comes to the
same value or the same error, wherever the argument stood in it. An error that is met before the
argument is reached, when the head of a call around it is looked up or another argument is
evaluated, is met all the same.

The value may be a procedure, too, and need not be pure. The variable is no head of a call, so that
procedure is not called.

## Main results

* `eval_fill_variable` — an expression and the same one with a value in the place of an argument
-/

namespace HostedLisp

variable {σ ε : Type}

/-- **An expression may be replaced by its value.** All procedures that are visible from `env` are
pure, and the name `x` occurs nowhere in an expression. A part of it has the value `v`. With a
variable `x` in the place of this part, and in a scope inside `env` in which `x` is bound to `v`,
evaluation has the same outcome. -/
theorem eval_fill_variable {host : Host σ ε} {env : Env} {world : World σ} {context : Context}
    {e : Expr} {x : String} {v : Value}
    (pure : ∀ name p, world.heap.get? env name = some (.proc p) → host.Pure world.data p)
    (fresh : (context.fill e).EveryName (· ≠ x)) (h : (eval host env e world).answer = .ok v) :
    let inner := (world.heap.extend env).1
    let heap := ((world.heap.extend env).2.define inner x v).2
    (eval host inner (context.fill (.atom (.var x))) { world with heap }).answer
      = (eval host env (context.fill e) world).answer := by
  intro inner heap
  have hsees (name : String) :
      heap.get? inner name = if name = x then some v else world.heap.get? env name :=
    world.heap.get?_extend_define env x v name
  have hsame (name : String) (hname : name ≠ x) :
      heap.get? inner name = world.heap.get? env name := by rw [hsees, if_neg hname]
  -- Heads of calls have other names than `x`, so they are bound to the same procedures.
  have hheads : (context.fill (.atom (.var x))).EveryHead (· ≠ x) :=
    context.every_fill fresh.everyHead trivial
  have hcalls : (context.fill (.atom (.var x))).CallsPure host inner { world with heap } :=
    hheads.imp fun name hname p hp => pure name p (hsame name hname ▸ hp)
  have hpure (e : Expr) : e.CallsPure host env world := e.everyHead_of_forall pure
  rw [(eval_of_callsPure (hpure e)).1] at h
  rw [(eval_of_callsPure hcalls).1, (eval_of_callsPure (hpure _)).1]
  have agrees {e : Expr} (he : e.EveryName (· ≠ x)) :
      Steady.eval host inner { world with heap } e = Steady.eval host env world e := by
    refine Steady.eval_congr (he.imp hsame) (he.everyHead.imp fun name hname p hp values => ?_)
    rw [hsame name hname] at hp
    exact (pure name p hp).answer values heap world.heap
  have hpart : Steady.eval host inner { world with heap } (.atom (.var x))
      = Steady.eval host inner { world with heap } e := by
    rw [agrees (context.every_of_every_fill fresh), h, Steady.eval, Heap.value, hsees, if_pos rfl]
  calc Steady.eval host inner { world with heap } (context.fill (.atom (.var x)))
    _ = Steady.eval host inner { world with heap } (context.fill e) :=
        Steady.eval_fill_congr hpart context
    _ = Steady.eval host env world (context.fill e) := agrees fresh

/-- Behind the part an argument is met that cannot be added, in both expressions. -/
theorem eval_fill_variable_sum :
    let host := Library.host 1
    let heap := (Heap.empty.ofList [("+", .proc Library.Builtin.add.proc)]).2
    let world : World Library.Data := ⟨heap, .start⟩
    let context : Context := .argument "+" [.atom (.integer 1)] .hole [.atom (.string "a")]
    let e : Expr := .call "+" [.atom (.integer 2), .atom (.integer 3)]
    (∀ name p, heap.get? ⟨0⟩ name = some (.proc p) → host.Pure .start p) ∧
      (context.fill e).EveryName (· ≠ "x") ∧
      (eval host ⟨0⟩ e world).answer = .ok (.integer 5) ∧
      (eval host ⟨1⟩ (context.fill (.atom (.var "x")))
          ⟨((heap.extend ⟨0⟩).2.define ⟨1⟩ "x" (.integer 5)).2, .start⟩).answer
        = (eval host ⟨0⟩ (context.fill e) world).answer := by
  intro host heap world context e
  have hpure : ∀ name p, heap.get? ⟨0⟩ name = some (.proc p) → host.Pure .start p := by
    intro name p hp
    have hlookup := (Heap.empty.get?_ofList _ name).symm.trans hp
    obtain rfl : Library.Builtin.add.proc = p := by
      rw [List.reverse_singleton, List.lookup_cons, List.lookup_nil] at hlookup
      split at hlookup <;> cases hlookup
      rfl
    refine Library.pure_host fun routine hroutine values => ?_
    cases hroutine
    rfl
  have hfresh : (context.fill e).EveryName (· ≠ "x") := by
    simp [context, e, Context.fill, Expr.EveryName, Expr.Every, Expr.EveryAll]
  have hvalue : (eval host ⟨0⟩ e world).answer = .ok (.integer 5) := by
    simp only [eval, Machine.run_eq_outcome]
    cbv
  exact ⟨hpure, hfresh, hvalue, eval_fill_variable hpure hfresh hvalue⟩

end HostedLisp
