import Mathlib
import HostedLisp.Proofs.Form.Progress

/-!
# Readers that settle

What a single step does to a cursor is lifted here to readers with a slot and to runs of steps. A
reader that has answered that there is nothing more goes on answering so, whatever steps come
between, and a reader that has met an unexpected character goes on meeting it, as long as no
character is handed out. A step that is repeated settles after at most as many answers as there are
characters, so reading a whole text ends.

## Main definitions

* `Lookahead.answerAfter`, `Lookahead.answers` — what a repeated step answers; what many steps do
* `Lookahead.Settles` — what progress and settling mean for a reader

## Main results

* `Lookahead.unread_run_of_end`, `Lookahead.toCursor_run_of_stuckAt` — final states stay
* `Lookahead.exists_settled` — the answers of a step that is repeated
* `Lookahead.Faithful.settles` — every reader of a text settles
* `Lookahead.answers_tokens`, `Lookahead.answers_forms` — reading a whole text in steps
* `Lookahead.reading_settles` — progress and settling after any steps, and for whole texts
-/

namespace HostedLisp

/-! ### Answers of one step -/

/-- The step that an answer belongs to. -/
def Answer.step : Answer → Step
  | .peeked _ => .peek
  | .char _ => .next
  | .atEnd _ => .atEnd
  | .token _ => .token
  | .item _ => .item
  | .call _ => .call
  | .form _ => .form

namespace Answer

variable {a b : Answer}

/-- A step has one way to answer that there is nothing more. -/
theorem eq_of_isNothing (h : a.step = b.step) (ha : a.isNothing) (hb : b.isNothing) : a = b := by
  have shape {a : Answer} (ha : a.isNothing) :
      a = .token (.ok none) ∨ a = .item (.ok none) ∨ a = .form (.ok none) := by
    unfold isNothing at ha
    split at ha <;> simp_all
  rcases shape ha with rfl | rfl | rfl <;> rcases shape hb with rfl | rfl | rfl <;>
    first | rfl | cases h

/-- A step has one way to tell of an unexpected character. -/
theorem eq_of_refused {char : Char} {code : UInt32} {pos : Position} (h : a.step = b.step)
    (ha : a.refused? = some (char, code, pos)) (hb : b.refused? = some (char, code, pos)) :
    a = b := by
  have shape {a : Answer} (ha : a.refused? = some (char, code, pos)) :
      a = .token (.error (.unexpectedChar char code pos)) ∨
        a = .item (.error (.lex (.unexpectedChar char code pos))) ∨
        a = .call (.error (.lex (.unexpectedChar char code pos))) ∨
        a = .form (.error (.lex (.unexpectedChar char code pos))) := by
    unfold refused? at ha
    split at ha
    · simp [LexError.refused?_eq_some_iff.1 ha]
    · simp [ParseError.refused?_eq_some_iff.1 ha]
    · simp [ParseError.refused?_eq_some_iff.1 ha]
    · simp [ParseError.refused?_eq_some_iff.1 ha]
    · cases ha
  rcases shape ha with rfl | rfl | rfl | rfl <;> rcases shape hb with rfl | rfl | rfl | rfl <;>
    first | rfl | cases h

end Answer

theorem Cursor.step_answer_step (c : Cursor) (s : Step) : (c.step s).1.answer.step = s := by
  cases s <;> rfl

namespace Lookahead

variable {r : Lookahead (List Char)} {s : Step} {char : Char} {code : UInt32} {pos : Position}

/-! ### Final states -/

/-- **At the end of the text** any steps stay there. -/
theorem unread_run_of_end (h : r.Faithful) (hend : r.unread = []) (steps : List Step) :
    (r.run steps).2.unread = [] := by
  induction steps generalizing r with
  | nil => exact hend
  | cons s steps ih =>
    obtain ⟨-, hplace, hfaithful⟩ := step_eq h s
    have hstep : (r.step s).2.unread = [] := by
      show (r.step s).2.toCursor.unread = []
      rw [hplace]
      exact (Cursor.step_of_end hend s).1
    exact ih hfaithful hstep

/-- **At an unexpected character** any steps that hand out none stay there. -/
theorem toCursor_run_of_stuckAt (h : r.Faithful) (hstuck : r.toCursor.StuckAt char code pos)
    {steps : List Step} (hsteps : .next ∉ steps) : (r.run steps).2.toCursor = r.toCursor := by
  induction steps generalizing r with
  | nil => rfl
  | cons s steps ih =>
    obtain ⟨-, hplace, hfaithful⟩ := step_eq h s
    have hne : s ≠ .next := fun hs => hsteps (by simp [hs])
    have hstep : (r.step s).2.toCursor = r.toCursor :=
      hplace.trans (Cursor.step_of_stuckAt hstuck hne).1
    have hlast := ih hfaithful (hstep ▸ hstuck) fun hmem => hsteps (by simp [hmem])
    exact hlast.trans hstep

theorem unread_step_of_isNothing (h : r.Faithful) (hnothing : (r.step s).1.answer.isNothing) :
    (r.step s).2.unread = [] := by
  obtain ⟨hreport, hplace, -⟩ := step_eq h s
  show (r.step s).2.toCursor.unread = []
  rw [hreport] at hnothing
  rw [hplace]
  exact Cursor.unread_step_of_isNothing hnothing

theorem stuckAt_step_of_refused (h : r.Faithful)
    (hrefused : (r.step s).1.answer.refused? = some (char, code, pos)) :
    (r.step s).2.toCursor.StuckAt char code pos := by
  obtain ⟨hreport, hplace, -⟩ := step_eq h s
  rw [hreport] at hrefused
  rw [hplace]
  exact Cursor.stuckAt_step_of_refused hrefused

/-- Where there is nothing more, later steps answer so. -/
theorem isNothing_step_run (h : r.Faithful) (hend : r.unread = []) (steps : List Step)
    (hs : s.beginsOutside) : ((r.run steps).2.step s).1.answer.isNothing := by
  rw [(step_eq (faithful_run h steps) s).1]
  exact (Cursor.step_of_end (unread_run_of_end h hend steps) s).2 hs

/-- Where an unexpected character stands, later steps meet it. -/
theorem refused_step_run (h : r.Faithful) (hstuck : r.toCursor.StuckAt char code pos)
    {steps : List Step} (hsteps : .next ∉ steps) (hs : s.pulls) :
    ((r.run steps).2.step s).1.answer.refused? = some (char, code, pos) ∧
      ((r.run steps).2.step s).2.toCursor = r.toCursor := by
  have hplace := toCursor_run_of_stuckAt h hstuck hsteps
  have hne : s ≠ .next := by
    rintro rfl
    cases hs
  obtain ⟨hreport, hcursor, -⟩ := step_eq (faithful_run h steps) s
  rw [hplace] at hreport hcursor
  obtain ⟨hstay, hrefused⟩ := Cursor.step_of_stuckAt hstuck hne
  rw [hreport, hcursor]
  exact ⟨hrefused hs, hstay⟩

/-- Any other answer costs a character. -/
theorem length_step_lt (h : r.Faithful) (hs : s.beginsOutside)
    (hnothing : (r.step s).1.answer.isNothing = false)
    (hrefused : (r.step s).1.answer.refused? = none) :
    (r.step s).2.unread.length < r.unread.length := by
  obtain ⟨hreport, hplace, -⟩ := step_eq h s
  show (r.step s).2.toCursor.unread.length < r.toCursor.unread.length
  rw [hreport] at hnothing hrefused
  rw [hplace]
  exact Cursor.length_step_lt hs hnothing hrefused

/-! ### Steps that are repeated -/

/-- The answer of a step that has been made `n` times before. -/
def answerAfter (r : Lookahead (List Char)) (s : Step) (n : Nat) : Answer :=
  ((r.run (List.replicate n s)).2.step s).1.answer

theorem answerAfter_succ (r : Lookahead (List Char)) (s : Step) (n : Nat) :
    r.answerAfter s (n + 1) = (r.step s).2.answerAfter s n := rfl

theorem step_answerAfter (h : r.Faithful) (s : Step) (n : Nat) : (r.answerAfter s n).step = s := by
  rw [answerAfter, (step_eq (faithful_run h _) s).1]
  exact Cursor.step_answer_step ..

/-- A final answer is repeated forever. -/
theorem answerAfter_of_isNothing (h : r.Faithful) (hs : s.beginsOutside)
    (hnothing : (r.answerAfter s 0).isNothing) (n : Nat) :
    r.answerAfter s n = r.answerAfter s 0 := by
  cases n with
  | zero => rfl
  | succ n =>
    have hfaithful := (step_eq h s).2.2
    have hend : (r.step s).2.unread = [] := unread_step_of_isNothing h hnothing
    refine Answer.eq_of_isNothing ?_ ?_ hnothing
    · rw [step_answerAfter h, step_answerAfter h]
    · exact isNothing_step_run hfaithful hend (List.replicate n s) hs

theorem answerAfter_of_refused (h : r.Faithful) (hs : s.beginsOutside)
    (hrefused : (r.answerAfter s 0).refused? = some (char, code, pos)) (n : Nat) :
    r.answerAfter s n = r.answerAfter s 0 := by
  cases n with
  | zero => rfl
  | succ n =>
    have hfaithful := (step_eq h s).2.2
    have hstuck : (r.step s).2.toCursor.StuckAt char code pos := stuckAt_step_of_refused h hrefused
    have hpulls : s.pulls := by cases s <;> first | rfl | cases hs
    have hsteps : Step.next ∉ List.replicate n s := by
      intro hmem
      obtain rfl := List.eq_of_mem_replicate hmem
      cases hs
    refine Answer.eq_of_refused ?_ ?_ hrefused
    · rw [step_answerAfter h, step_answerAfter h]
    · exact (refused_step_run hfaithful hstuck hsteps hpulls).1

/-- **A step that is repeated settles** after at most as many answers as there are characters to
read. The induction is on their number, which every other answer makes smaller. -/
theorem exists_settled {s : Step} (r : Lookahead (List Char)) (h : r.Faithful)
    (hs : s.beginsOutside) :
    ∃ n last, n ≤ r.unread.length ∧ (last.isNothing ∨ last.refused?.isSome) ∧
      ∀ m, n ≤ m → r.answerAfter s m = last := by
  by_cases hnothing : (r.answerAfter s 0).isNothing
  · exact ⟨0, _, Nat.zero_le _, .inl hnothing,
      fun m _ => answerAfter_of_isNothing h hs hnothing m⟩
  · cases hrefused : (r.answerAfter s 0).refused? with
    | some place =>
      exact ⟨0, _, Nat.zero_le _, .inr (by rw [hrefused]; rfl),
        fun m _ => answerAfter_of_refused h hs hrefused m⟩
    | none =>
      have hfaithful := (step_eq h s).2.2
      have hless := length_step_lt h hs (Bool.eq_false_iff.2 hnothing) hrefused
      obtain ⟨n, last, hn, hlast, hrepeat⟩ := exists_settled (r.step s).2 hfaithful hs
      refine ⟨n + 1, last, by omega, hlast, ?_⟩
      intro m hm
      obtain ⟨m, rfl⟩ : ∃ k, m = k + 1 := ⟨m - 1, by omega⟩
      rw [answerAfter_succ]
      exact hrepeat m (by omega)
termination_by r.unread.length

/-! ### Readers that settle -/

/-- Reading makes progress from here on, and comes to an end. -/
structure Settles (r : Lookahead (List Char)) : Prop where
  /-- A step that gives no final answer consumes characters. -/
  progress : ∀ s : Step, s.beginsOutside → (r.step s).1.answer.isNothing = false →
    (r.step s).1.answer.refused? = none →
      ∃ taken, taken ≠ [] ∧ r.toCursor.Takes taken (r.step s).2.toCursor
  /-- There is nothing more only where all of the text has been consumed, and then there is nothing
  more after any later steps. -/
  ended : ∀ s : Step, (r.step s).1.answer.isNothing →
    (r.step s).2.unread = [] ∧ ∀ (later : List Step) (s' : Step), s'.beginsOutside →
      (((r.step s).2.run later).2.step s').1.answer.isNothing
  /-- An unexpected character is met again, with the same error and without consuming anything,
  after any later steps that hand out no character. -/
  refused : ∀ (s : Step) (char : Char) (code : UInt32) (pos : Position),
    (r.step s).1.answer.refused? = some (char, code, pos) →
      ∀ (later : List Step) (s' : Step), .next ∉ later → s'.pulls →
        (((r.step s).2.run later).2.step s').1.answer.refused? = some (char, code, pos) ∧
          (((r.step s).2.run later).2.step s').2.toCursor = (r.step s).2.toCursor
  /-- A step that is repeated gives no more answers than there are characters, and then a final
  one forever. -/
  repeated : ∀ s : Step, s.beginsOutside → ∃ n last, n ≤ r.unread.length ∧
    (last.isNothing ∨ last.refused?.isSome) ∧ ∀ m, n ≤ m → r.answerAfter s m = last
  /-- A step pulls no more tokens than it consumes characters. -/
  bounded : ∀ s : Step,
    Cursor.tokenCount (r.step s).1.events + (r.step s).2.unread.length ≤ r.unread.length

/-- **Every reader of a text settles.** -/
theorem Faithful.settles (h : r.Faithful) : r.Settles where
  progress s hs hnothing hrefused := by
    obtain ⟨taken, htakes, -⟩ := r.toCursor.takes_step s
    rw [← (step_eq h s).2.1] at htakes
    refine ⟨taken, ?_, htakes⟩
    rintro rfl
    have hless := length_step_lt h hs hnothing hrefused
    have hsame : (r.step s).2.unread = r.unread := htakes.1
    rw [hsame] at hless
    exact Nat.lt_irrefl _ hless
  ended s hnothing := by
    have hfaithful := (step_eq h s).2.2
    have hend := unread_step_of_isNothing h hnothing
    exact ⟨hend, fun later s' hs' => isNothing_step_run hfaithful hend later hs'⟩
  refused s char code pos hrefused := by
    have hfaithful := (step_eq h s).2.2
    have hstuck := stuckAt_step_of_refused h hrefused
    intro later s' hlater hs'
    exact refused_step_run hfaithful hstuck hlater hs'
  repeated s hs := exists_settled r h hs
  bounded s := by
    have hcount := r.toCursor.tokenCount_step_add_le s
    rwa [← (step_eq h s).1, ← (step_eq h s).2.1] at hcount

/-! ### Whole texts -/

/-- The answers of many steps one after the other. -/
def answers (r : Lookahead (List Char)) (steps : List Step) : List Answer :=
  (r.run steps).1.map Report.answer

theorem answers_cons (r : Lookahead (List Char)) (s : Step) (steps : List Step) :
    r.answers (s :: steps) = (r.step s).1.answer :: (r.step s).2.answers steps := rfl

theorem answers_of_reads {c c₁ : Cursor} {ts : List Token} (hreads : c.Reads ts c₁)
    (h : r.Faithful) (hplace : r.toCursor = c) :
    r.answers (List.replicate (ts.length + 1) .token)
      = ts.map (fun t => .token (.ok (some t))) ++ [.token c₁.readNext.1] := by
  induction hreads generalizing r with
  | @nil c =>
    subst hplace
    rfl
  | @cons c c₁ c₂ t ts first _ ih =>
    obtain ⟨hreport, hnext, hfaithful⟩ := step_eq h .token
    have hanswer : (r.step .token).1.answer = .token (.ok (some t)) := by
      rw [hreport, hplace, Cursor.step, first]
    have hcursor : (r.step .token).2.toCursor = c₁ := by
      rw [hnext, hplace, Cursor.step, first]
    rw [List.length_cons, List.replicate_succ, answers_cons, hanswer, ih hfaithful hcursor]
    rfl

/-- **Reading all tokens** is reading tokens until there is no further one, and there are no more
of them than characters. -/
theorem answers_tokens (h : r.Faithful) :
    let all := r.toCursor.readAll
    all.tokens.length ≤ r.unread.length ∧
      r.answers (List.replicate (all.tokens.length + 1) .token)
        = all.tokens.map (fun t => .token (.ok (some t)))
          ++ [.token (all.result.map fun _ => none)] := by
  intro all
  obtain ⟨ts, c₁, hreads, hlast⟩ := r.toCursor.exists_reads
  have hall : all.tokens = ts ∧ all.result.map (fun _ => none) = c₁.readNext.1 := by
    have hrun : all = c₁.readOnto (#[] ++ ts.toArray) := Cursor.readOnto_of_reads hreads #[]
    rw [hrun, Cursor.readOnto_eq]
    match hnext : c₁.readNext with
    | (.ok (some t), c₂) => exact absurd (congrArg Prod.fst hnext) (hlast t)
    | (.ok none, c₂) | (.error cause, c₂) => exact ⟨by simp, rfl⟩
  obtain ⟨rfl, hresult⟩ := hall
  have hcount := Cursor.length_add_le_of_reads hreads
  refine ⟨Nat.le_trans (Nat.le_add_right ..) hcount, ?_⟩
  rw [hresult]
  exact answers_of_reads hreads h rfl

/-- **Reading all forms** is reading forms until there is no further one, and there are no more of
them than characters. -/
theorem answers_forms (h : r.Faithful) :
    let all := r.toCursor.readForms
    all.forms.length ≤ r.unread.length ∧
      r.answers (List.replicate (all.forms.length + 1) .form)
        = all.forms.map (fun e => .form (.ok (some e)))
          ++ [.form (all.result.map fun _ => none)] := by
  intro all
  obtain ⟨c, hplace⟩ : ∃ c, r.toCursor = c := ⟨_, rfl⟩
  have hunread : r.unread = c.unread := congrArg Cursor.unread hplace
  have hanswer : (r.step .form).1.answer = .form c.readForm.answer := by
    rw [(step_eq h .form).1, hplace]
    rfl
  have hall : all = c.readForms := congrArg Cursor.readForms hplace
  rw [hall, hunread]
  clear hall all
  induction c using Cursor.formsInduction generalizing r with
  | error c cause hform | finish c hform =>
    first
      | rw [Cursor.readForms_of_error hform]
      | rw [Cursor.readForms_of_end hform]
    refine ⟨Nat.zero_le _, ?_⟩
    rw [List.length_nil, List.replicate_succ, answers_cons, hanswer, hform]
    rfl
  | form c e hform ih =>
    obtain ⟨-, hnext, hfaithful⟩ := step_eq h .form
    have hcursor : (r.step .form).2.toCursor = c.readForm.cursor := by
      rw [hnext, hplace]
      rfl
    have hless := Cursor.length_readForm_lt hform
    obtain ⟨hcount, hothers⟩ := ih hfaithful hcursor (congrArg Cursor.unread hcursor)
      (by rw [(step_eq hfaithful .form).1, hcursor]; rfl)
    have hresult : c.readForms.result.map (fun _ => (none : Option Expr))
        = c.readForm.cursor.readForms.result.map fun _ => none := by
      rw [Cursor.readForms_of_form hform, FormRun.result, FormRun.result]
      cases c.readForm.cursor.readForms.error? <;> rfl
    have hforms : c.readForms.forms = e :: c.readForm.cursor.readForms.forms := by
      rw [Cursor.readForms_of_form hform]
    rw [hresult, hforms, List.length_cons]
    refine ⟨by omega, ?_⟩
    rw [List.replicate_succ, answers_cons, hanswer, hform, hothers]
    rfl

end Lookahead

/-- **Reading makes progress and settles**, from every place that steps of any kinds lead to, also
behind errors and inside calls. So reading a whole text ends, whether as tokens, as forms or as one
form: it takes one step more than there are tokens or forms, and pulls no more tokens than there
are characters. -/
theorem Lookahead.reading_settles (source : String) (before : List Step) :
    ((ofString source).run before).2.Settles ∧
      (let tokens := (Cursor.ofString source).readAll.tokens
      tokens.length ≤ source.length ∧
        (ofString source).answers (List.replicate (tokens.length + 1) .token)
          = tokens.map (fun t => .token (.ok (some t)))
            ++ [.token ((tokenize source).map fun _ => none)]) ∧
      (let forms := (Cursor.ofString source).readForms.forms
      forms.length ≤ source.length ∧
        (ofString source).answers (List.replicate (forms.length + 1) .form)
          = forms.map (fun e => .form (.ok (some e)))
            ++ [.form ((parseScript source).map fun _ => none)]) ∧
      Cursor.tokenCount (Cursor.ofString source).readForms.events ≤ source.length ∧
      Cursor.tokenCount (Cursor.ofString source).readOnlyForm.events ≤ source.length := by
  have hfaithful := faithful_ofString source
  have hlength : (Cursor.ofString source).unread.length = source.length := String.length_toList
  have hforms := (Cursor.ofString source).tokenCount_readForms_add_le
  have hform := (Cursor.ofString source).tokenCount_readOnlyForm_add_le
  have htokens := answers_tokens hfaithful
  have hitems := answers_forms hfaithful
  refine ⟨(faithful_run hfaithful before).settles, ?_, ?_, by omega, by omega⟩
  · rw [← hlength]
    exact htokens
  · rw [← hlength]
    exact hitems

/-- The sign that ends the call is met outside of it too, and by a token. -/
example : (Lookahead.ofString "(f # g").answers [.form, .atEnd, .item, .token]
    = [.form (.error (.lex (.unexpectedChar '#' 35 ⟨0, 3⟩))), .atEnd false,
      .item (.error (.lex (.unexpectedChar '#' 35 ⟨0, 3⟩))),
      .token (.error (.unexpectedChar '#' 35 ⟨0, 3⟩))] := by cbv

end HostedLisp
