import HostedLisp.Proofs.Form.Grammar

/-!
# Runs of forms, form by form

Reading all forms is a loop that carries the forms and events so far. Here the run from a cursor is
said in terms of the next form alone: it ends with an error or with the text, or it is that form and
the run from the cursor behind it. Since every form leaves less to read, this is a principle of
induction on cursors, and all that walks over the forms of a text is shown by it.

## Main results

* `Cursor.formsInduction` — induction on the forms that can be read one after the other
* `Cursor.readForms_of_error`, `Cursor.readForms_of_end`, `Cursor.readForms_of_form` — a run in
  terms of the next form
-/

namespace HostedLisp

namespace Cursor

variable {c : Cursor} {e : Expr}

/-- **Induction on the forms that can be read one after the other**, up to the end of the text or
the first error. -/
@[elab_as_elim]
theorem formsInduction {motive : Cursor → Prop}
    (error : ∀ c cause, c.readForm.answer = .error cause → motive c)
    (finish : ∀ c, c.readForm.answer = .ok none → motive c)
    (form : ∀ c e, c.readForm.answer = .ok (some e) → motive c.readForm.cursor → motive c)
    (c : Cursor) : motive c := by
  match h : c.readForm.answer with
  | .error cause => exact error c cause h
  | .ok none => exact finish c h
  | .ok (some e) =>
    have hless : c.readForm.cursor.unread.length < c.unread.length := length_readForm_lt h
    exact form c e h (formsInduction error finish form c.readForm.cursor)
termination_by c.unread.length

/-- The loop over forms adds what it carries to the run from its cursor. -/
theorem readFormsOnto_eq_readForms (c : Cursor) (forms : List Expr) (events : Array Event) :
    c.readFormsOnto forms events
      = ⟨forms.reverse ++ c.readForms.forms, c.readForms.error?, c.readForms.cursor,
          events ++ c.readForms.events⟩ := by
  induction c using formsInduction generalizing forms events with
  | error c cause h | finish c h =>
    rw [readForms, readFormsOnto_eq, readFormsOnto_eq c [], h]
    simp
  | form c e h ih =>
    rw [readForms, readFormsOnto_eq, readFormsOnto_eq c [], h]
    simp [ih]

theorem readForms_of_error {cause : ParseError} (h : c.readForm.answer = .error cause) :
    c.readForms = ⟨[], some cause, c.readForm.cursor, c.readForm.events⟩ := by
  rw [readForms, readFormsOnto_eq, h]
  simp

theorem readForms_of_end (h : c.readForm.answer = .ok none) :
    c.readForms = ⟨[], none, c.readForm.cursor, c.readForm.events⟩ := by
  rw [readForms, readFormsOnto_eq, h]
  simp

/-- **A run begins with the next form** and goes on behind it. -/
theorem readForms_of_form (h : c.readForm.answer = .ok (some e)) :
    c.readForms = { c.readForm.cursor.readForms with
      forms := e :: c.readForm.cursor.readForms.forms
      events := c.readForm.events ++ c.readForm.cursor.readForms.events } := by
  rw [readForms, readFormsOnto_eq, h]
  simp [readFormsOnto_eq_readForms]

/-- A run over the tokens of some forms begins with these forms. -/
theorem readForms_of_reads {c₁ : Cursor} {es : List Expr} (plain : ∀ e ∈ es, e.Plain)
    (h : c.Reads (Expr.tokensAll es) c₁) :
    c.readForms.forms = es ++ c₁.readForms.forms ∧ c.readForms.error? = c₁.readForms.error? := by
  obtain ⟨events, hrun⟩ := readFormsOnto_of_reads plain h [] #[]
  rw [readForms, hrun, readFormsOnto_eq_readForms]
  simp

end Cursor

/-- A run without an error has read all of its text. -/
theorem FormRun.result_eq_ok_iff {run : FormRun} {es : List Expr} :
    run.result = .ok es ↔ run.error? = none ∧ run.forms = es := by
  obtain ⟨forms, error?, cursor, events⟩ := run
  cases error? <;> simp [result]

theorem FormRun.result_eq_error_iff {run : FormRun} {e : ParseError} :
    run.result = .error e ↔ run.error? = some e := by
  obtain ⟨forms, error?, cursor, events⟩ := run
  cases error? <;> simp [result]

end HostedLisp
