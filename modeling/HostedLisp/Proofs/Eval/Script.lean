import HostedLisp.Eval.Machine
import HostedLisp.Proofs.Eval.Sequence

/-!
# Scripts as sequences of evaluations

A script evaluates its expressions in turn and has the value of the last one. `evalScript` is a loop
that carries the last value and the applications made so far; here it is said as a sequence, without
either of the two. What a script evaluates first and what it evaluates then can be told apart at any
place: evaluating `es ++ fs` is evaluating `es` and then `fs`.

A script without expressions has no value, so behind other expressions it keeps theirs.
`Evaluation.orLast` says this of any evaluation that may give no value.

## Main results

* `evalScript_cons` — a script begins with the evaluation of its first expression
* `evalScript_append` — the parts of a script are evaluated one after the other
-/

namespace HostedLisp

variable {σ ε α β : Type}

/-! ### Falling back on an earlier value -/

namespace Evaluation

/-- An evaluation that falls back on an earlier value where it gives none. -/
def orLast (last? : Option α) (evaluation : Evaluation σ ε (Option α)) :
    Evaluation σ ε (Option α) :=
  { evaluation with answer := evaluation.answer.map (·.or last?) }

@[simp] theorem orLast_none (evaluation : Evaluation σ ε (Option α)) :
    evaluation.orLast none = evaluation := by
  obtain ⟨answer, world, applications⟩ := evaluation
  cases answer <;> simp [orLast, Except.map]

theorem orLast_orLast (first second : Option α) (evaluation : Evaluation σ ε (Option α)) :
    (evaluation.orLast second).orLast first = evaluation.orLast (second.or first) := by
  obtain ⟨answer, world, applications⟩ := evaluation
  cases answer <;> simp [orLast, Except.map, Option.or_assoc]

theorem orLast_after (last? : Option α) (earlier : Array Application)
    (evaluation : Evaluation σ ε (Option α)) :
    (evaluation.after earlier).orLast last? = (evaluation.orLast last?).after earlier := rfl

theorem orLast_andThen (last? : Option α) (first : Evaluation σ ε β)
    (next : β → World σ → Evaluation σ ε (Option α)) :
    (first.andThen next).orLast last?
      = first.andThen fun b world => (next b world).orLast last? := by
  obtain ⟨answer, world, applications⟩ := first
  cases answer <;> rfl

/-- What follows sees the value that was fallen back on. -/
theorem andThen_orLast (last? : Option α) (first : Evaluation σ ε (Option α))
    (next : Option α → World σ → Evaluation σ ε β) :
    (first.orLast last?).andThen next = first.andThen fun a? world => next (a?.or last?) world := by
  obtain ⟨answer, world, applications⟩ := first
  cases answer <;> rfl

end Evaluation

/-! ### Scripts -/

variable (host : Host σ ε) (env : Env)

/-- The loop over a script adds what it carries to the evaluation of the script. -/
theorem evalScriptOnto_eq (last? : Option Value) (applications : Array Application)
    (es : List Expr) (world : World σ) :
    evalScriptOnto host env last? applications es world
      = ((evalScript host env es world).orLast last?).after applications := by
  induction es generalizing last? applications world with
  | nil => simp [evalScript, evalScriptOnto, Evaluation.orLast, Evaluation.after, Except.map]
  | cons e es ih =>
    rw [evalScript, evalScriptOnto, evalScriptOnto]
    cases (eval host env e world).answer with
    | error cause => simp [Evaluation.orLast, Evaluation.after, Except.map]
    | ok value =>
      simp only [ih (some value), Array.empty_append]
      -- Both sides fall back on `value` first, so the earlier value is never reached.
      rw [Evaluation.orLast_after, Evaluation.orLast_orLast, Evaluation.after_after, Option.some_or]

@[simp] theorem evalScript_nil (world : World σ) :
    evalScript host env [] world = ⟨.ok none, world, #[]⟩ := rfl

/-- **A script begins with the evaluation of its first expression**, and the value of that is the
value of the script if no other expression follows. -/
theorem evalScript_cons (e : Expr) (es : List Expr) (world : World σ) :
    evalScript host env (e :: es) world
      = (eval host env e world).andThen fun value world =>
          (evalScript host env es world).orLast (some value) := by
  rw [evalScript, evalScriptOnto]
  cases h : (eval host env e world).answer with
  | error cause => simp [Evaluation.andThen, h]
  | ok value =>
    rw [Evaluation.andThen_of_ok h]
    simp only [evalScriptOnto_eq host env (some value), Array.empty_append]

/-- **The parts of a script are evaluated one after the other.** -/
theorem evalScript_append (es fs : List Expr) (world : World σ) :
    evalScript host env (es ++ fs) world
      = (evalScript host env es world).andThen fun last? world =>
          (evalScript host env fs world).orLast last? := by
  induction es generalizing world with
  | nil => simp
  | cons e es ih =>
    rw [List.cons_append, evalScript_cons, evalScript_cons, Evaluation.andThen_assoc]
    congr 1
    funext value world
    rw [ih, Evaluation.orLast_andThen, Evaluation.andThen_orLast]
    simp only [Evaluation.orLast_orLast]

end HostedLisp
