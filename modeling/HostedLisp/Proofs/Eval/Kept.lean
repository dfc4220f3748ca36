import HostedLisp.Program

/-!
# What evaluation keeps

Evaluation itself changes nothing in the world; all that changes it is what procedures do, one after
the other. So a relation between the world before and the world after that every procedure keeps is
kept by every evaluation and every program, as long as doing nothing keeps it and doing one thing
after the other does.

## Main definitions

* `Host.Keeps` — a relation between worlds that procedures keep

## Main results

* `Host.Keeps.turn`, `Host.Keeps.run` — a turn and a run of the machine keep it
* `Host.Keeps.eval`, `Host.Keeps.runProgram` — evaluations and programs keep it
-/

namespace HostedLisp

variable {σ ε : Type}

/-- Every procedure of the host leaves a world that has the relation `R` to the one it was applied
in, and so does doing nothing, and doing one thing after the other. -/
structure Host.Keeps (host : Host σ ε) (R : World σ → World σ → Prop) : Prop where
  /-- Doing nothing keeps the relation. -/
  refl : ∀ world, R world world
  /-- Doing one thing after the other keeps the relation. -/
  trans : ∀ {first second third : World σ}, R first second → R second third → R first third
  /-- A procedure keeps the relation. -/
  proc : ∀ p values world, R world (host p values world).world

/-- The world that a turn of the machine leaves. -/
def Machine.Turn.world : Turn σ ε → World σ
  | .next s => s.world
  | .done evaluation => evaluation.world

namespace Host.Keeps

variable {host : Host σ ε} {R : World σ → World σ → Prop} (keeps : host.Keeps R)

include keeps

open Machine

/-- Handing on a value applies the calls that it completes, one after the other. -/
theorem deliver (value : Value) (world : World σ) (applications : Array Application)
    (stack : List Pending) : R world (deliver host value world applications stack).world := by
  fun_induction Machine.deliver host value world applications stack with
  | case1 | case2 => exact keeps.refl _
  | case3 _ _ _ _ _ _ applied _ _ ih => exact keeps.trans (keeps.proc ..) ih
  | case4 => exact keeps.proc ..

theorem turn (env : Env) (s : State σ) : R s.world (turn host env s).world := by
  unfold Machine.turn
  split
  · exact keeps.deliver ..
  · exact keeps.deliver ..
  · exact keeps.deliver ..
  · split
    · exact keeps.deliver ..
    · exact keeps.refl _
  · split
    · exact keeps.refl _
    · split
      · exact keeps.refl _
      · -- A call without arguments is applied in this turn.
        dsimp only
        split
        · exact keeps.trans (keeps.proc ..) (keeps.deliver ..)
        · exact keeps.proc ..

theorem run (env : Env) (s : State σ) : R s.world (run host env s).world := by
  fun_induction Machine.run host env s with
  | case1 s s' hturn ih =>
    have first := keeps.turn env s
    rw [hturn] at first
    exact keeps.trans first ih
  | case2 s evaluation hturn =>
    have last := keeps.turn env s
    rwa [hturn] at last

/-- **An evaluation keeps what procedures keep.** -/
theorem eval (env : Env) (e : Expr) (world : World σ) :
    R world (eval host env e world).world := keeps.run env (.start e world)

theorem runForms (env : Env) (last? : Option Value) (log : Log) (c : Cursor) (world : World σ) :
    R world (runForms host env last? log c world).world := by
  fun_induction HostedLisp.runForms host env last? log c world with
  | case1 | case2 => exact keeps.refl _
  | case3 => exact keeps.eval ..
  | case4 _ _ _ _ _ _ _ _ _ _ _ _ ih => exact keeps.trans (keeps.eval ..) ih

/-- **A program keeps what procedures keep.** -/
theorem runProgram (env : Env) (source : String) (world : World σ) :
    R world (runProgram host env source world).world := keeps.runForms ..

end Host.Keeps

end HostedLisp
