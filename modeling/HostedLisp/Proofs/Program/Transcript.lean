import HostedLisp.Proofs.Eval.Applications
import HostedLisp.Proofs.Form.Exact
import HostedLisp.Proofs.Form.Pulled
import HostedLisp.Proofs.Program.Eager

/-!
# What a program tells

Reading and evaluating take turns, and the log of a program shows it: the tokens of the first form,
the place where the form ends, the calls whose procedures are applied, the value of the form, and
then the same of the next form. Where a form has no value the log ends, so nothing has been read
behind it. Where no form can be read any more, the log ends with the tokens that were read in vain.

The transcript of a program is this list, made from its forms and their places alone. It tells all
that the log does if the procedures add nothing of their own.

## Main definitions

* `Host.Quiet` — procedures that tell nothing
* `Cursor.Stand` — the forms that stand between two places, and where each of them ends
* `transcript` — what a program tells, form by form

## Main results

* `Host.Quiet.log_eval` — the log of an evaluation
* `log_runForms`, `log_runProgram` — the log of a program is its transcript
-/

namespace HostedLisp

variable {σ ε : Type}

/-! ### Quiet hosts -/

/-- No procedure of the host tells anything. -/
def Host.Quiet (host : Host σ ε) : Prop := ∀ p values world, (host p values world).log.toList = []

/-- What an evaluation tells of the procedures it applies. -/
def Evaluation.announcements {α : Type} (evaluation : Evaluation σ ε α) : List Event :=
  evaluation.calls.map fun (function, arity) => .applying function arity

namespace Host.Quiet

variable {host : Host σ ε}

theorem replay (quiet : host.Quiet) (applications : List Application) (world : World σ) :
    (host.replay applications world).2
      = applications.map fun a => .applying a.function a.arguments.length := by
  induction applications generalizing world with
  | nil => rfl
  | cons a others ih => simp [Host.replay, ih, quiet a.proc a.arguments world]

/-- **The log of an evaluation** tells only of the procedures applied. -/
theorem log_eval (quiet : host.Quiet) (env : Env) (e : Expr) (world : World σ) :
    (eval host env e world).log.toList = (eval host env e world).announcements := by
  have hlog := congrArg Prod.snd (eval_follows host env e world).replayed
  refine hlog.symm.trans ?_
  rw [quiet.replay, Evaluation.announcements, Evaluation.calls, List.map_map]
  rfl

end Host.Quiet

/-! ### Transcripts -/

/-- Some forms stand one after the other between two places. With each form comes the position just
behind its last character. -/
inductive Cursor.Stand : Cursor → List (Expr × Position) → Cursor → Prop where
  /-- Without any forms the two places are the same. -/
  | nil {c : Cursor} : Stand c [] c
  /-- The tokens of the first form are pulled first. They are written up to its last character. -/
  | cons {c c₁ c₂ : Cursor} {e : Expr} {text : List Char} {forms : List (Expr × Position)}
      (reads : c.Reads e.tokens c₁) (takes : c.Takes text c₁) (written : WrittenTight e.tokens text)
      (others : Stand c₁ forms c₂) : Stand c ((e, c₁.pos) :: forms) c₂

/-- What a program tells that consists of the given forms and ends with `tail`. A form without a
value is the last one that is told of. -/
def transcript (host : Host σ ε) (env : Env) (tail : List Event) :
    List (Expr × Position) → World σ → List Event
  | [], _ => tail
  | (e, stop) :: forms, world =>
    let evaluation := eval host env e world
    e.tokens.map .read ++ .parsed stop :: evaluation.announcements ++
      match evaluation.answer with
      | .error _ => []
      | .ok value => .evaluated value :: transcript host env tail forms evaluation.world

/-- A form with a value, and then a call that is not closed. -/
example : transcript countingHost ⟨0⟩ [.read .opening, .read (.identifier "f")]
    [(.atom (.var "x"), ⟨0, 1⟩)] smallWorld
      = [.read (.identifier "x"), .parsed ⟨0, 1⟩, .evaluated (.bool true), .read .opening,
        .read (.identifier "f")] := by
  simp only [transcript, eval, Machine.run_eq_outcome]
  cbv

section

variable {host : Host σ ε} (quiet : host.Quiet) (env : Env)

include quiet

/-- **The log of the rest of a program.** The induction is on the forms that can be read, each of
which adds its part to the log. -/
theorem log_runForms (c : Cursor) :
    ∃ forms c₁ ts, c.Stand forms c₁ ∧ forms.map Prod.fst = c.readForms.forms ∧
      c₁.Pulls ts c.readForms.cursor ∧ (c.readForms.error? = none → ts = []) ∧
      ∀ last? log world, (runForms host env last? log c world).log.toList
        = log.toList ++ transcript host env (ts.map .read) forms world := by
  induction c using Cursor.formsInduction with
  | error c cause h =>
    obtain ⟨ts, hpulls, hevents⟩ := c.pulls_readForm_of_no_form (by simp [h])
    rw [Cursor.readForms_of_error h]
    refine ⟨[], c, ts, .nil, rfl, hpulls, by simp, ?_⟩
    intro last? log world
    rw [runForms_of_error host env h, hevents]
    rfl
  | finish c h =>
    obtain ⟨ts, hpulls, hevents⟩ := c.pulls_readForm_of_no_form (by simp [h])
    obtain ⟨c₁, hend⟩ := Cursor.end_of_readForm h
    have hts : ts = [] := hpulls.eq_nil_of_end (congrArg Prod.fst hend)
    rw [Cursor.readForms_of_end h]
    refine ⟨[], c, ts, .nil, rfl, hpulls, fun _ => hts, ?_⟩
    intro last? log world
    rw [runForms_of_end host env h, hevents]
    rfl
  | form c e h ih =>
    obtain ⟨hreads, plain⟩ := Cursor.reads_of_readForm h
    obtain ⟨text, htakes, hwritten⟩ := Cursor.takes_of_reads hreads
    obtain ⟨forms, c₁, ts, hforms, hsame, hpulls, hend, hlog⟩ := ih
    have hevents : c.readForm.events
        = (e.tokens.map Event.read).toArray.push (.parsed c.readForm.cursor.pos) :=
      congrArg Reading.events (Cursor.readForm_of_reads plain hreads)
    rw [Cursor.readForms_of_form h]
    refine ⟨(e, c.readForm.cursor.pos) :: forms, c₁, ts, .cons hreads htakes hwritten hforms,
      congrArg (e :: ·) hsame, hpulls, hend, ?_⟩
    intro last? log world
    rw [runForms_of_form host env h, transcript, hevents]
    dsimp only
    cases hanswer : (eval host env e world).answer with
    | error cause => simp [quiet.log_eval]
    | ok value => simp [quiet.log_eval, hlog]

/-- **The log of a program is its transcript**: form by form the tokens, the place of the end, the
procedures applied and the value, up to the first form without a value. Behind the last form that
can be read come the tokens read in vain, of which there are none at the end of the text. -/
theorem log_runProgram (source : String) (world : World σ) :
    let start := Cursor.ofString source
    ∃ forms last ts, start.Stand forms last ∧ forms.map Prod.fst = start.readForms.forms ∧
      last.Pulls ts start.readForms.cursor ∧ (start.readForms.error? = none → ts = []) ∧
      (runProgram host env source world).log.toList
        = transcript host env (ts.map .read) forms world := by
  intro start
  obtain ⟨forms, last, ts, hforms, hsame, hpulls, hend, hlog⟩ := log_runForms quiet env start
  exact ⟨forms, last, ts, hforms, hsame, hpulls, hend, hlog none ∅ world⟩

end

/-- A call and a name, both with a value. -/
theorem log_runProgram_call_name :
    countingHost.Quiet ∧
      let start := Cursor.ofString "(f 1) x"
      ∃ forms last ts, start.Stand forms last ∧ forms.map Prod.fst = start.readForms.forms ∧
        last.Pulls ts start.readForms.cursor ∧ (start.readForms.error? = none → ts = []) ∧
        (runProgram countingHost ⟨0⟩ "(f 1) x" smallWorld).log.toList
          = transcript countingHost ⟨0⟩ (ts.map .read) forms smallWorld :=
  have quiet : countingHost.Quiet := fun _ _ _ => rfl
  ⟨quiet, log_runProgram quiet ⟨0⟩ "(f 1) x" smallWorld⟩

end HostedLisp
