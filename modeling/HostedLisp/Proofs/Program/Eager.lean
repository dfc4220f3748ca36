import Mathlib
import HostedLisp.Program
import HostedLisp.Proofs.Eval.Script
import HostedLisp.Proofs.Eval.Unwinding
import HostedLisp.Proofs.Form.Run

/-!
# Running programs form by form

A program is run form by form: the next form is read only once the form before it has a value. Its
forms could also be read first, up to the end of the text or the first error, and then be evaluated
as a script. Both ways change the world in the same way and have the same answer, when the errors of
the second are weighed by their place in the program: an evaluation that fails comes before the form
that cannot be read, as that one stands behind all that were read.

## Main definitions

* `FormRun.verdict` — the answer of a program, given how its forms were read and evaluated

## Main results

* `runForms_eq_evalScript`, `runProgram_verdict` — running the rest of a program, and a whole one
* `runProgram_eq_evalScript` — running a program, also one that can be read as a whole
-/

namespace HostedLisp

variable {σ ε : Type}

/-- The answer of a program whose forms were read in the run `run`, when evaluating them as a script
has the answer `evaluated`. An error of evaluation counts first. -/
def FormRun.verdict (run : FormRun) (evaluated : Except (EvalError ε) (Option Value)) :
    Except (ProgramError ε) (Option Value) :=
  match evaluated, run.error? with
  | .error cause, _ => .error (.eval cause)
  | .ok _, some cause => .error (.parse cause)
  | .ok value?, none => .ok value?

variable (host : Host σ ε) (env : Env)

theorem runForms_of_error {c : Cursor} {cause : ParseError} (h : c.readForm.answer = .error cause)
    (last? : Option Value) (log : Log) (world : World σ) :
    runForms host env last? log c world
      = ⟨.error (.parse cause), world, log ++ .chunk c.readForm.events⟩ := by
  rw [runForms]
  split <;> simp_all

theorem runForms_of_end {c : Cursor} (h : c.readForm.answer = .ok none) (last? : Option Value)
    (log : Log) (world : World σ) :
    runForms host env last? log c world = ⟨.ok last?, world, log ++ .chunk c.readForm.events⟩ := by
  rw [runForms]
  split <;> simp_all

/-- A program goes on behind a form that has a value, and ends with one that has none. -/
theorem runForms_of_form {c : Cursor} {e : Expr} (h : c.readForm.answer = .ok (some e))
    (last? : Option Value) (log : Log) (world : World σ) :
    runForms host env last? log c world =
      let evaluation := eval host env e world
      let log := log ++ .chunk c.readForm.events ++ evaluation.log
      match evaluation.answer with
      | .error cause => ⟨.error (.eval cause), evaluation.world, log⟩
      | .ok value =>
        runForms host env (some value) (log.push (.evaluated value)) c.readForm.cursor
          evaluation.world := by
  rw [runForms]
  split
  · simp_all
  · simp_all
  · next e' h' =>
    obtain rfl : e' = e := by simpa [h] using h'.symm
    rfl

/-- **Running the rest of a program is reading its forms and evaluating them as a script.** The
induction is on the forms, the value of each of which is what the script falls back on next. -/
theorem runForms_eq_evalScript (last? : Option Value) (log : Log) (c : Cursor) (world : World σ) :
    let script := (evalScript host env c.readForms.forms world).orLast last?
    (runForms host env last? log c world).answer = c.readForms.verdict script.answer ∧
      (runForms host env last? log c world).world = script.world := by
  induction c using Cursor.formsInduction generalizing last? log world with
  | error c cause h =>
    rw [runForms_of_error host env h, Cursor.readForms_of_error h]
    exact ⟨rfl, rfl⟩
  | finish c h =>
    rw [runForms_of_end host env h, Cursor.readForms_of_end h]
    exact ⟨by simp [Evaluation.orLast, FormRun.verdict, Except.map], rfl⟩
  | form c e h ih =>
    rw [runForms_of_form host env h, Cursor.readForms_of_form h]
    simp only [evalScript_cons]
    cases hvalue : (eval host env e world).answer with
    | error cause =>
      simp [Evaluation.andThen, hvalue, Evaluation.orLast, FormRun.verdict, Except.map]
    | ok value =>
      rw [Evaluation.andThen_of_ok hvalue, Evaluation.orLast_after, Evaluation.orLast_orLast,
        Option.some_or]
      exact ih (some value) _ _

theorem runProgram_verdict (source : String) (world : World σ) :
    let run := (Cursor.ofString source).readForms
    let script := evalScript host env run.forms world
    (runProgram host env source world).answer = run.verdict script.answer ∧
      (runProgram host env source world).world = script.world := by
  have hrun := runForms_eq_evalScript host env none ∅ (Cursor.ofString source) world
  rwa [Evaluation.orLast_none] at hrun

/-- A host whose procedures give the number of their arguments. -/
def countingHost : Host Unit Unit :=
  fun _ values world => ⟨.ok (.integer (Int64.ofNat values.length)), world, ∅⟩

/-- A world with one scope, which binds a procedure to `f` and a truth value to `x`. -/
def smallWorld : World Unit :=
  ⟨(Heap.empty.ofList [("f", .proc ⟨0⟩), ("x", .bool true)]).2, ()⟩

/-- **Running a program has the effects and the answer of reading all forms and evaluating them as a
script.** Where the whole text can be read, the two agree without a further condition. -/
theorem runProgram_eq_evalScript (source : String) (world : World σ) :
    let run := (Cursor.ofString source).readForms
    let eager := evalScript host env run.forms world
    let lazy := runProgram host env source world
    lazy.world = eager.world ∧ lazy.answer = run.verdict eager.answer ∧
      ∀ es, parseScript source = .ok es →
        lazy.world = (evalScript host env es world).world ∧
          lazy.answer = (evalScript host env es world).answer.mapError .eval := by
  intro run eager lazy
  obtain ⟨hanswer, hworld⟩ := runProgram_verdict host env source world
  refine ⟨hworld, hanswer, fun es hes => ?_⟩
  obtain ⟨herror, rfl⟩ := FormRun.result_eq_ok_iff.1 hes
  refine ⟨hworld, hanswer.trans ?_⟩
  -- No form is left unread, so evaluation alone decides.
  cases (evalScript host env (Cursor.ofString source).readForms.forms world).answer <;>
    simp [FormRun.verdict, herror, Except.mapError]

/-- A program of two forms has the value of the second. -/
theorem runProgram_call_name :
    parseScript "(f 1) x" = .ok [.call "f" [.atom (.integer 1)], .atom (.var "x")] ∧
      (runProgram countingHost ⟨0⟩ "(f 1) x" smallWorld).answer = .ok (some (.bool true)) := by
  have hparse : parseScript "(f 1) x" = .ok [.call "f" [.atom (.integer 1)], .atom (.var "x")] :=
    Cursor.result_readForms_eq_ok_iff.2
      ⟨⟨_, _, .cons (by cbv) (.cons (by cbv) (.cons (by cbv) (.cons (by cbv)
          (.cons (by cbv) .nil)))), by cbv⟩,
        by simp [Expr.Plain, Expr.EveryAll, Expr.Every, Expr.PlainName]⟩
  have heager : (evalScript countingHost ⟨0⟩ [.call "f" [.atom (.integer 1)], .atom (.var "x")]
      smallWorld).answer = .ok (some (.bool true)) := by
    simp only [evalScript_cons, evalScript_nil, eval, Machine.run_eq_outcome]
    cbv
  have hlazy := (runProgram_eq_evalScript countingHost ⟨0⟩ "(f 1) x" smallWorld).2.2 _ hparse
  exact ⟨hparse, by rw [hlazy.2, heager]; rfl⟩

end HostedLisp
