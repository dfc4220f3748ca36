import HostedLisp.Eval.Recursive

/-!
# Evaluations in sequence

`Evaluation.andThen` puts one evaluation behind another. It obeys the laws of sequencing, with the
procedures that were applied as its only trace: values are passed on, the first error ends
everything, and the applications of the parts are joined in order.

`Evaluation.after` is the other half of the bookkeeping. A machine carries the applications made so
far through its states, while a recursive definition starts every part with none; `after` puts the
ones made so far back in front.

## Main results

* `Evaluation.andThen_assoc`, `Evaluation.ok_andThen`, `Evaluation.andThen_ok` — the laws of
  sequencing
* `Evaluation.after_andThen` — applications made before do not take part in what follows
-/

namespace HostedLisp

variable {σ ε α β γ : Type}

namespace Evaluation

/-- An evaluation as it looks behind some earlier applications. -/
def after (earlier : Array Application) (evaluation : Evaluation σ ε α) : Evaluation σ ε α :=
  { evaluation with applications := earlier ++ evaluation.applications }

@[simp] theorem after_empty (evaluation : Evaluation σ ε α) :
    evaluation.after #[] = evaluation := by
  simp [after]

theorem after_after (first second : Array Application) (evaluation : Evaluation σ ε α) :
    (evaluation.after second).after first = evaluation.after (first ++ second) := by
  simp [after, Array.append_assoc]

@[simp] theorem ok_andThen (a : α) (world : World σ) (applications : Array Application)
    (next : α → World σ → Evaluation σ ε β) :
    andThen ⟨.ok a, world, applications⟩ next = (next a world).after applications := rfl

@[simp] theorem error_andThen (e : EvalError ε) (world : World σ)
    (applications : Array Application) (next : α → World σ → Evaluation σ ε β) :
    andThen ⟨.error e, world, applications⟩ next = ⟨.error e, world, applications⟩ := rfl

theorem andThen_of_ok {first : Evaluation σ ε α} {a : α} (h : first.answer = .ok a)
    (next : α → World σ → Evaluation σ ε β) :
    first.andThen next = (next a first.world).after first.applications := by
  rw [andThen, h]
  rfl

/-- Nothing follows an error. -/
theorem andThen_of_error {first : Evaluation σ ε α} {e : EvalError ε} (h : first.answer = .error e)
    (next : α → World σ → Evaluation σ ε α) : first.andThen next = first := by
  obtain ⟨answer, world, applications⟩ := first
  subst h
  rfl

theorem andThen_eq_error {first : Evaluation σ ε α} {e : EvalError ε} (h : first.answer = .error e)
    (next : α → World σ → Evaluation σ ε β) :
    first.andThen next = ⟨.error e, first.world, first.applications⟩ := by
  rw [andThen, h]

/-- A sequence has a value only where both of its parts have one. -/
theorem exists_of_andThen_eq_ok {first : Evaluation σ ε α} {next : α → World σ → Evaluation σ ε β}
    {b : β} (h : (first.andThen next).answer = .ok b) :
    ∃ a, first.answer = .ok a ∧ (next a first.world).answer = .ok b := by
  cases hanswer : first.answer with
  | error e =>
    rw [andThen_eq_error hanswer] at h
    cases h
  | ok a =>
    rw [andThen_of_ok hanswer] at h
    exact ⟨a, rfl, h⟩

/-- Earlier applications do not take part in what follows. -/
theorem after_andThen (earlier : Array Application) (first : Evaluation σ ε α)
    (next : α → World σ → Evaluation σ ε β) :
    (first.after earlier).andThen next = (first.andThen next).after earlier := by
  obtain ⟨answer, world, applications⟩ := first
  cases answer with
  | error e => rfl
  | ok a =>
    change (next a world).after (earlier ++ applications) = _
    rw [← after_after]
    rfl

/-- Going on with nothing but the value changes nothing. -/
theorem andThen_ok (first : Evaluation σ ε α) :
    (first.andThen fun a world => ⟨.ok a, world, #[]⟩) = first := by
  obtain ⟨answer, world, applications⟩ := first
  cases answer with
  | error e => rfl
  | ok a => simp [after]

theorem andThen_assoc (first : Evaluation σ ε α) (second : α → World σ → Evaluation σ ε β)
    (third : β → World σ → Evaluation σ ε γ) :
    (first.andThen second).andThen third
      = first.andThen fun a world => (second a world).andThen third := by
  obtain ⟨answer, world, applications⟩ := first
  cases answer with
  | error e => rfl
  | ok a => rw [ok_andThen, ok_andThen, after_andThen]

end Evaluation

/-- Evaluating some arguments begins with the first of them. -/
theorem Recursive.evalArguments_cons_andThen (host : Host σ ε) (env : Env) (e : Expr)
    (es : List Expr) (world : World σ) (next : List Value → World σ → Evaluation σ ε β) :
    (evalArguments host env (e :: es) world).andThen next
      = (eval host env e world).andThen fun value world =>
          (evalArguments host env es world).andThen fun values world =>
            next (value :: values) world := by
  rw [evalArguments, Evaluation.andThen_assoc]
  congr 1
  funext value world
  rw [Evaluation.andThen_assoc]
  simp

end HostedLisp
