import HostedLisp.Proofs.Form.Behind
import HostedLisp.Proofs.Form.Seam
import HostedLisp.Proofs.Program.Eager

/-!
# Programs one below the other

A newline separates programs: the text of one program, a newline and the text of another are read as
the tokens and forms of the first and then those of the second, and running it is running the one
and then the other. Errors of the second program lie as many lines lower as there are lines above
it, and keep their columns.

A first program that fails ends the whole, unless its error is one that further lines could mend. An
error of evaluation never is.

## Main definitions

* `Position.lower` — a position some lines further down
* `ProgramError.isFinal` — the errors that no further line can change

## Main results

* `tokenize_newline`, `parseScript_newline` — reading two programs
* `runProgram_newline_of_ok`, `runProgram_newline_of_isFinal` — running two programs
* `newline_separates_programs` — all of this together
-/

namespace HostedLisp

/-! ### Positions below other lines -/

/-- The position `lines` lines further down, in the same column. -/
def Position.lower (lines : Nat) (p : Position) : Position := ⟨p.line + lines, p.column⟩

/-- From the start of a line everything is only so many lines further down. -/
theorem Position.behind_lineStart (lines : Nat) : Position.behind ⟨lines, 0⟩ = .lower lines := by
  funext p
  rw [behind, lower]
  split
  · next h => simp [h]
  · rw [Nat.add_comm]

/-- The error at the place that `f` gives for its own place. What procedures report is theirs. -/
def ProgramError.mapPos {ε : Type} (f : Position → Position) : ProgramError ε → ProgramError ε
  | .parse cause => .parse (cause.mapPos f)
  | .eval cause => .eval cause
  | .read cause => .read cause

/-- Whether an error of a program stays when further lines follow. -/
def ProgramError.isFinal {ε : Type} : ProgramError ε → Bool
  | .parse cause => cause.isFinal
  | .eval _ => true
  | .read _ => false

variable {σ ε : Type} {s : String} (t : String)

/-! ### Reading two programs -/

namespace Cursor

/-- The second program begins at the start of a line. -/
theorem pos_beyond_ofString (s : String) (more : List Char) :
    ((ofString s).beyond more).pos = ⟨1 + s.toList.count '\n', 0⟩ := by
  rw [beyond, pos_advance, Position.after_append, Position.after_cons, Position.after_nil,
    Position.advance, if_pos rfl, Position.line_after]
  simp [ofString, ofList, Position.origin, Nat.add_comm]

theorem readAll_beyond (s : String) :
    ((ofString s).beyond t.toList).readAll
      = (ofString t).readAll.behind ((ofString s).beyond t.toList) := by
  rw [← readAll_behind]
  exact congrArg readAll (behind_ofList _).symm

theorem readForms_beyond (s : String) :
    ((ofString s).beyond t.toList).readForms
      = (ofString t).readForms.behind ((ofString s).beyond t.toList) := by
  rw [← readForms_behind]
  exact congrArg readForms (behind_ofList _).symm

end Cursor

/-- **The tokens of two programs** are those of one and then those of the other. -/
theorem tokenize_newline {ts : List Token} (h : tokenize s = .ok ts) :
    tokenize (s ++ "\n" ++ t)
      = ((tokenize t).mapError (·.mapPos (.lower (1 + s.toList.count '\n')))).map (ts ++ ·) := by
  rw [tokenize, Cursor.ofString_newline, Cursor.readAll_followedBy _ h, Cursor.readAll_beyond,
    TokenRun.behind, Cursor.pos_beyond_ofString, Position.behind_lineStart, tokenize]
  obtain ⟨tokens, error?, cursor⟩ := (Cursor.ofString t).readAll
  cases error? <;> rfl

/-- **The forms of two programs** are those of one and then those of the other. -/
theorem parseScript_newline {es : List Expr} (h : parseScript s = .ok es) :
    parseScript (s ++ "\n" ++ t)
      = ((parseScript t).mapError (·.mapPos (.lower (1 + s.toList.count '\n')))).map (es ++ ·) := by
  obtain ⟨herror, rfl⟩ := FormRun.result_eq_ok_iff.1 h
  rw [parseScript, Cursor.ofString_newline, Cursor.readForms_followedBy _ herror,
    Cursor.readForms_beyond, FormRun.behind, Cursor.pos_beyond_ofString, Position.behind_lineStart,
    parseScript]
  obtain ⟨forms, error?, cursor, events⟩ := (Cursor.ofString t).readForms
  cases error? <;> rfl

/-! ### Running two programs -/

theorem FormRun.verdict_eq_ok_iff {run : FormRun}
    {evaluated : Except (EvalError ε) (Option Value)} {value? : Option Value} :
    run.verdict evaluated = .ok value? ↔ run.error? = none ∧ evaluated = .ok value? := by
  obtain ⟨forms, error?, cursor, events⟩ := run
  cases evaluated <;> cases error? <;> simp [verdict]

/-- Where all forms have values, an error is one of reading. -/
theorem FormRun.exists_of_verdict_eq_error {run : FormRun} {value? : Option Value}
    {e : ProgramError ε} (h : run.verdict (.ok value?) = .error e) :
    ∃ cause, run.error? = some cause ∧ e = .parse cause := by
  obtain ⟨forms, error?, cursor, events⟩ := run
  cases error? with
  | none => cases h
  | some cause =>
    cases h
    exact ⟨cause, rfl, rfl⟩

/-- The verdict on the forms of a lower program, with the value of the program above it to fall
back on. -/
theorem FormRun.verdict_behind (start : Cursor) (run : FormRun)
    (evaluated : Except (EvalError ε) (Option Value)) (last? : Option Value) :
    (run.behind start).verdict (evaluated.map (·.or last?))
      = ((run.verdict evaluated).mapError (·.mapPos start.pos.behind)).map (·.or last?) := by
  obtain ⟨forms, error?, cursor, events⟩ := run
  cases evaluated <;> cases error? <;> rfl

variable (host : Host σ ε) (env : Env) {world : World σ}

/-- **A program that has a value is followed by the next one**, whose errors lie so many lines lower
and which keeps the value where it has none of its own. -/
theorem runProgram_newline_of_ok {value? : Option Value}
    (h : (runProgram host env s world).answer = .ok value?) :
    let second := runProgram host env t (runProgram host env s world).world
    let whole := runProgram host env (s ++ "\n" ++ t) world
    whole.world = second.world ∧
      whole.answer = (second.answer.mapError
        (·.mapPos (.lower (1 + s.toList.count '\n')))).map (·.or value?) := by
  intro second whole
  obtain ⟨hfirst, hfirstWorld⟩ := runProgram_verdict host env s world
  rw [h] at hfirst
  obtain ⟨herror, hvalue⟩ := FormRun.verdict_eq_ok_iff.1 hfirst.symm
  obtain ⟨hsecond, hsecondWorld⟩ :=
    runProgram_verdict host env t (runProgram host env s world).world
  obtain ⟨hwhole, hwholeWorld⟩ := runProgram_verdict host env (s ++ "\n" ++ t) world
  rw [Cursor.ofString_newline, Cursor.readForms_followedBy _ herror, Cursor.readForms_beyond]
    at hwhole hwholeWorld
  -- The forms of the whole are those of both, and the second ones start in the world of the first.
  have hscript : evalScript host env ((Cursor.ofString s).readForms.forms
      ++ (Cursor.ofString t).readForms.forms) world = _ := evalScript_append ..
  rw [Evaluation.andThen_of_ok hvalue, ← hfirstWorld] at hscript
  dsimp only [FormRun.behind] at hwhole hwholeWorld
  rw [hscript] at hwhole hwholeWorld
  refine ⟨hwholeWorld.trans hsecondWorld.symm, hwhole.trans ?_⟩
  have hverdict := FormRun.verdict_behind ((Cursor.ofString s).beyond t.toList)
    (Cursor.ofString t).readForms (evalScript host env (Cursor.ofString t).readForms.forms
      (runProgram host env s world).world).answer value?
  rw [Cursor.pos_beyond_ofString, Position.behind_lineStart, ← hsecond] at hverdict
  exact hverdict

/-- **A program with an error that no further line can change** is not followed by anything. -/
theorem runProgram_newline_of_isFinal {e : ProgramError ε}
    (h : (runProgram host env s world).answer = .error e) (hfinal : e.isFinal) :
    (runProgram host env (s ++ "\n" ++ t) world).world = (runProgram host env s world).world ∧
      (runProgram host env (s ++ "\n" ++ t) world).answer = .error e := by
  obtain ⟨hfirst, hfirstWorld⟩ := runProgram_verdict host env s world
  obtain ⟨hwhole, hwholeWorld⟩ := runProgram_verdict host env (s ++ "\n" ++ t) world
  rw [Cursor.ofString_newline] at hwhole hwholeWorld
  rw [h] at hfirst
  match hvalue : (evalScript host env (Cursor.ofString s).readForms.forms world).answer with
  | .error cause =>
    -- The form that fails comes before all that is new.
    obtain ⟨es, hes⟩ := Cursor.exists_forms_followedBy t.toList (Cursor.ofString s)
    rw [hes, evalScript_append, Evaluation.andThen_of_error hvalue, hvalue] at hwhole
    rw [hes, evalScript_append, Evaluation.andThen_of_error hvalue] at hwholeWorld
    rw [hvalue] at hfirst
    exact ⟨hwholeWorld.trans hfirstWorld.symm, hwhole.trans hfirst.symm⟩
  | .ok value? =>
    -- Everything was evaluated, so reading failed, and it fails in the longer text too.
    rw [hvalue] at hfirst
    obtain ⟨cause, herror, rfl⟩ := FormRun.exists_of_verdict_eq_error hfirst.symm
    rw [Cursor.readForms_followedBy_of_isFinal t.toList herror hfinal] at hwhole hwholeWorld
    rw [hvalue] at hwhole
    exact ⟨hwholeWorld.trans hfirstWorld.symm, hwhole.trans hfirst.symm⟩

/-- A program without forms has no value. -/
theorem runProgram_of_no_forms (h : parseScript t = .ok []) :
    (runProgram host env t world).answer = .ok none := by
  obtain ⟨hanswer, -⟩ := runProgram_verdict host env t world
  obtain ⟨herror, hforms⟩ := FormRun.result_eq_ok_iff.1 h
  rw [hforms] at hanswer
  exact hanswer.trans (FormRun.verdict_eq_ok_iff.2 ⟨herror, rfl⟩)

/-- **A newline separates programs.** Where the first can be read, the whole is read as both, one
after the other. Where the first has a value, running the whole is running both, and the value of
the first counts where the second has no forms. Where the first fails in a way that no further line
can change, the whole fails like it. Errors of the second program are reported so many lines
lower. -/
theorem newline_separates_programs (interpreter : Interpreter) (world : World σ) (s t : String) :
    let lower := Position.lower (1 + s.toList.count '\n')
    let first := interpreter.eval host s world
    let second := interpreter.eval host t first.world
    let whole := interpreter.eval host (s ++ "\n" ++ t) world
    (∀ ts, tokenize s = .ok ts →
        tokenize (s ++ "\n" ++ t) = ((tokenize t).mapError (·.mapPos lower)).map (ts ++ ·)) ∧
      (∀ es, parseScript s = .ok es →
        parseScript (s ++ "\n" ++ t) = ((parseScript t).mapError (·.mapPos lower)).map (es ++ ·)) ∧
      (∀ value?, first.answer = .ok value? →
        whole.world = second.world ∧
          whole.answer = (second.answer.mapError (·.mapPos lower)).map (·.or value?) ∧
          (parseScript t = .ok [] → whole.answer = .ok value?)) ∧
      ∀ e, first.answer = .error e → e.isFinal →
        whole.world = first.world ∧ whole.answer = .error e := by
  refine ⟨fun ts => tokenize_newline t, fun es => parseScript_newline t, fun value? h => ?_,
    fun e => runProgram_newline_of_isFinal t host interpreter.env⟩
  obtain ⟨hworld, hanswer⟩ := runProgram_newline_of_ok t host interpreter.env h
  refine ⟨hworld, hanswer, fun hnone => hanswer.trans ?_⟩
  rw [runProgram_of_no_forms t host interpreter.env hnone]
  simp [Except.mapError, Except.map]

/-- Below a call, a comment adds nothing, and an error is met one line lower. Below a closing
parenthesis nothing is reached. -/
theorem newline_separates_call_comment :
    (tokenize "(f 1)" = .ok [.opening, .identifier "f", .integer 1, .closing] ∧
        tokenize ("(f 1)" ++ "\n" ++ " #") = .error (.unexpectedChar '#' 35 ⟨1, 1⟩)) ∧
      (parseScript "(f 1)" = .ok [.call "f" [.atom (.integer 1)]] ∧
        parseScript ("(f 1)" ++ "\n" ++ "; x") = .ok [.call "f" [.atom (.integer 1)]]) ∧
      (((Interpreter.mk ⟨0⟩).eval countingHost "(f 1)" smallWorld).answer
          = .ok (some (.integer 1)) ∧
        parseScript "; x" = .ok [] ∧
        ((Interpreter.mk ⟨0⟩).eval countingHost ("(f 1)" ++ "\n" ++ "; x") smallWorld).answer
          = .ok (some (.integer 1))) ∧
      ((Interpreter.mk ⟨0⟩).eval countingHost ")" smallWorld).answer
          = .error (.parse (.unexpectedClosing ⟨0, 1⟩)) ∧
        ((Interpreter.mk ⟨0⟩).eval countingHost (")" ++ "\n" ++ "x") smallWorld).answer
          = .error (.parse (.unexpectedClosing ⟨0, 1⟩)) := by
  have htokens : tokenize "(f 1)" = .ok [.opening, .identifier "f", .integer 1, .closing] :=
    Cursor.result_readAll_eq_ok_iff.2
      ⟨_, _, .cons (by cbv) (.cons (by cbv) (.cons (by cbv) (.cons (by cbv) .nil))), by cbv⟩
  have hunexpected : tokenize " #" = .error (.unexpectedChar '#' 35 ⟨0, 1⟩) := by
    have hnext : (Cursor.ofString " #").readNext
        = (.error (.unexpectedChar '#' 35 ⟨0, 1⟩), ⟨['#'], 1, ⟨0, 1⟩⟩) := by cbv
    rw [tokenize, Cursor.readAll, Cursor.readOnto_eq, hnext]
    rfl
  have hforms : parseScript "(f 1)" = .ok [.call "f" [.atom (.integer 1)]] :=
    Cursor.result_readForms_eq_ok_iff.2
      ⟨⟨_, _, .cons (by cbv) (.cons (by cbv) (.cons (by cbv) (.cons (by cbv) .nil))), by cbv⟩,
        by simp [Expr.Plain, Expr.EveryAll, Expr.Every, Expr.PlainName]⟩
  have hnone : parseScript "; x" = .ok [] :=
    Cursor.result_readForms_eq_ok_iff.2 ⟨⟨_, _, .nil, by cbv⟩, by simp⟩
  have hvalue : ((Interpreter.mk ⟨0⟩).eval countingHost "(f 1)" smallWorld).answer
      = .ok (some (.integer 1)) := by
    obtain ⟨hanswer, -⟩ := runProgram_verdict countingHost ⟨0⟩ "(f 1)" smallWorld
    obtain ⟨herror, hread⟩ := FormRun.result_eq_ok_iff.1 hforms
    rw [hread] at hanswer
    refine hanswer.trans (FormRun.verdict_eq_ok_iff.2 ⟨herror, ?_⟩)
    simp only [evalScript_cons, evalScript_nil, eval, Machine.run_eq_outcome]
    cbv
  have hclosing : ((Interpreter.mk ⟨0⟩).eval countingHost ")" smallWorld).answer
      = .error (.parse (.unexpectedClosing ⟨0, 1⟩)) := by
    have hform : (Cursor.ofString ")").readForm.answer = .error (.unexpectedClosing ⟨0, 1⟩) := by
      cbv
    exact congrArg Outcome.answer (runForms_of_error countingHost ⟨0⟩ hform none ∅ smallWorld)
  have hlower := newline_separates_programs countingHost ⟨⟨0⟩⟩ smallWorld "(f 1)" " #"
  have hcall := newline_separates_programs countingHost ⟨⟨0⟩⟩ smallWorld "(f 1)" "; x"
  have hfailed := newline_separates_programs countingHost ⟨⟨0⟩⟩ smallWorld ")" "x"
  exact ⟨⟨htokens, (hlower.1 _ htokens).trans (by rw [hunexpected]; rfl)⟩,
    ⟨hforms, (hcall.2.1 _ hforms).trans (by rw [hnone]; rfl)⟩,
    ⟨hvalue, hnone, (hcall.2.2.1 _ hvalue).2.2 hnone⟩,
    hclosing, (hfailed.2.2.2 _ hclosing rfl).2⟩

end HostedLisp
