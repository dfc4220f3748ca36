import Mathlib
import HostedLisp.Proofs.Form.Exact
import HostedLisp.Proofs.Form.Run

/-!
# One form or all forms

A text is read as exactly one form or as any number of forms. Both ways begin with the first form
and differ in how they see to it that the text ends: the one asks for a further token, the other for
a further form. So they can differ only where a token stands behind the first form. There the text
is more than one form, whether or not the rest of it can be read.

`Cursor.Compares` lists what the two ways of reading can answer together. There are five cases, and
two of them have a token behind the first form.

## Main definitions

* `Cursor.GoesOn` — a token stands behind the first form
* `Cursor.Compares` — the answers of the two ways of reading

## Main results

* `Cursor.result_readForms_of_form` — all forms in terms of the first one
* `Cursor.compares` — the two ways of reading from any place
* `parseExpr_agrees_with_parseScript` — the two ways of reading a text
-/

namespace HostedLisp

/-- Whether an error concerns a form, and not the number of forms. -/
def ParseError.concernsForm : ParseError → Bool
  | .emptyInput | .unexpectedTokens => false
  | _ => true

theorem ParseError.concernsForm_iff {cause : ParseError} :
    cause.concernsForm ↔ cause ≠ .emptyInput ∧ cause ≠ .unexpectedTokens := by
  cases cause <;> simp [concernsForm]

namespace Cursor

variable {c c₁ : Cursor} {e : Expr} {cause : ParseError}

/-! ### All forms in terms of the first one -/

theorem result_readForms_of_error (h : c.readForm.answer = .error cause) :
    c.readForms.result = .error cause := by
  rw [readForms_of_error h]
  rfl

theorem result_readForms_of_end (h : c.readForm.answer = .ok none) :
    c.readForms.result = .ok [] := by
  rw [readForms_of_end h]
  rfl

/-- Behind the first form come the forms that are read from there. -/
theorem result_readForms_of_form (h : c.readForm.answer = .ok (some e)) :
    c.readForms.result = c.readForm.cursor.readForms.result.map (e :: ·) := by
  rw [readForms_of_form h]
  obtain ⟨forms, error?, last, events⟩ := c.readForm.cursor.readForms
  cases error? <;> rfl

/-- **Reading a form meets no error that counts forms.** Where such an error ends is nowhere in a
text. -/
theorem concernsForm_of_readForm (h : c.readForm.answer = .error cause) : cause.concernsForm := by
  obtain ⟨taken, -, hends⟩ := c.takes_readForm
  rw [h] at hends
  cases cause with
  | emptyInput | unexpectedTokens => exact hends.elim
  | lex _ | callTarget _ | unexpectedEnd _ _ | unexpectedClosing _ => rfl

theorem concernsForm_of_readForms (h : c.readForms.result = .error cause) :
    cause.concernsForm := by
  induction c using formsInduction with
  | error c cause' hform =>
    rw [result_readForms_of_error hform] at h
    cases h
    exact concernsForm_of_readForm hform
  | finish c hform =>
    rw [result_readForms_of_end hform] at h
    cases h
  | form c e hform ih =>
    rw [result_readForms_of_form hform] at h
    cases hothers : c.readForm.cursor.readForms.result with
    | ok es =>
      rw [hothers] at h
      cases h
    | error cause' =>
      rw [hothers] at h
      cases h
      exact ih hothers

/-! ### What stands behind the first form -/

/-- A token stands behind the first form. -/
def GoesOn (c : Cursor) : Prop :=
  ∃ e t, c.readForm.answer = .ok (some e) ∧ c.readForm.cursor.readNext.1 = .ok (some t)

/-- What reading exactly one form answers, beside what reading all forms answers. -/
inductive Compares (c : Cursor) :
    Except ParseError Expr → Except ParseError (List Expr) → Prop where
  /-- There is no form. -/
  | nothing (ends : ¬c.GoesOn) : Compares c (.error .emptyInput) (.ok [])
  /-- There is one form and nothing behind it. -/
  | single {e : Expr} (ends : ¬c.GoesOn) : Compares c (.ok e) (.ok [e])
  /-- The first form cannot be read, or what stands behind it is no token. -/
  | fault {cause : ParseError} (concernsForm : cause.concernsForm) (ends : ¬c.GoesOn) :
      Compares c (.error cause) (.error cause)
  /-- There are several forms. -/
  | several {e f : Expr} {es : List Expr} (goesOn : c.GoesOn) :
      Compares c (.error .unexpectedTokens) (.ok (e :: f :: es))
  /-- Some form behind the first one cannot be read. -/
  | faultBehind {cause : ParseError} (concernsForm : cause.concernsForm) (goesOn : c.GoesOn) :
      Compares c (.error .unexpectedTokens) (.error cause)

theorem not_goesOn_of_answer (h : ∀ e, c.readForm.answer ≠ .ok (some e)) : ¬c.GoesOn := by
  rintro ⟨e, t, hform, -⟩
  exact h e hform

theorem not_goesOn_of_readNext (h : ∀ t, c.readForm.cursor.readNext.1 ≠ .ok (some t)) :
    ¬c.GoesOn := by
  rintro ⟨e, t, -, htoken⟩
  exact h t htoken

theorem readForm_of_lex_error {lexCause : LexError} (h : c.readNext = (.error lexCause, c₁)) :
    c.readForm.answer = .error (.lex lexCause) := by
  simp [readForm, readItem, h]

/-- Where a token can be read, there is a form, or an error. -/
theorem readForms_ne_nil_of_token {t : Token} (h : c.readNext = (.ok (some t), c₁)) :
    c.readForms.result ≠ .ok [] := by
  intro hnil
  obtain ⟨⟨c₂, c₃, hreads, hend⟩, -⟩ := result_readForms_eq_ok_iff.1 hnil
  cases hreads
  rw [h] at hend
  cases hend

/-- **The two ways of reading from any place**, by what stands behind the first form. -/
theorem compares (c : Cursor) : c.Compares c.readOnlyForm.answer c.readForms.result := by
  rw [readOnlyForm]
  split
  · next cause hform =>
    rw [result_readForms_of_error hform]
    exact .fault (concernsForm_of_readForm hform) (not_goesOn_of_answer (by simp [hform]))
  · next hform =>
    rw [result_readForms_of_end hform]
    exact .nothing (not_goesOn_of_answer (by simp [hform]))
  · next e hform =>
    rw [result_readForms_of_form hform]
    split
    · next lexCause c₁ hnext =>
      rw [result_readForms_of_error (readForm_of_lex_error hnext)]
      exact .fault rfl (not_goesOn_of_readNext (by simp [hnext]))
    · next c₁ hnext =>
      rw [result_readForms_of_end (by rw [readForm_of_end hnext])]
      exact .single (not_goesOn_of_readNext (by simp [hnext]))
    · next t c₁ hnext =>
      have goesOn : c.GoesOn := ⟨e, t, hform, congrArg Prod.fst hnext⟩
      cases hothers : c.readForm.cursor.readForms.result with
      | error cause => exact .faultBehind (concernsForm_of_readForms hothers) goesOn
      | ok es =>
        cases es with
        | nil => exact absurd hothers (readForms_ne_nil_of_token hnext)
        | cons f es => exact .several goesOn

end Cursor

/-! ### Whole texts -/

/-- **Reading one form agrees with reading all forms.** A text is one form if that is all of its
forms, and it is empty if it has none. It is more than one form exactly if a token stands behind
the first one, whatever comes of reading on from there. In all other cases both ways of reading fail
with the same error. Reading all forms never complains about their number, and where it fails,
reading one form fails too, with the same error unless it complains about a further token. -/
theorem parseExpr_agrees_with_parseScript (source : String) :
    (∀ e, parseExpr source = .ok e ↔ parseScript source = .ok [e]) ∧
    (parseExpr source = .error .emptyInput ↔ parseScript source = .ok []) ∧
    (parseExpr source = .error .unexpectedTokens ↔ (Cursor.ofString source).GoesOn) ∧
    ((∀ e, parseExpr source ≠ .ok e) → parseExpr source ≠ .error .emptyInput →
      parseExpr source ≠ .error .unexpectedTokens →
      ∃ cause, parseExpr source = .error cause ∧ parseScript source = .error cause) ∧
    parseScript source ≠ .error .emptyInput ∧ parseScript source ≠ .error .unexpectedTokens ∧
    ∀ cause, parseScript source = .error cause →
      parseExpr source = .error cause ∨ parseExpr source = .error .unexpectedTokens := by
  have hcompares := (Cursor.ofString source).compares
  rw [← parseExpr, ← parseScript] at hcompares
  generalize parseExpr source = one at hcompares ⊢
  generalize parseScript source = all at hcompares ⊢
  cases hcompares with
  | nothing ends => simp [ends]
  | single ends => simp [ends, eq_comm]
  | fault concernsForm ends => simp [ends, ParseError.concernsForm_iff.1 concernsForm]
  | several goesOn => simp [goesOn]
  | faultBehind concernsForm goesOn =>
    simp [goesOn, ParseError.concernsForm_iff.1 concernsForm]

/-- A closing parenthesis is the same error for both. A second form is a token too many, also where
it cannot be read. -/
theorem parseExpr_agrees_with_parseScript_fault :
    (parseExpr ")" = .error (.unexpectedClosing ⟨0, 1⟩) ∧
        parseScript ")" = .error (.unexpectedClosing ⟨0, 1⟩)) ∧
      (Cursor.ofString "1 (2").GoesOn ∧ parseExpr "1 (2" = .error .unexpectedTokens := by
  obtain ⟨-, -, -, hsame, -⟩ := parseExpr_agrees_with_parseScript ")"
  obtain ⟨-, -, hgoesOn, -⟩ := parseExpr_agrees_with_parseScript "1 (2"
  have hclosing : parseExpr ")" = .error (.unexpectedClosing ⟨0, 1⟩) := by cbv
  have hsecond : (Cursor.ofString "1 (2").GoesOn :=
    ⟨.atom (.integer 1), .opening, by cbv, by cbv⟩
  obtain ⟨cause, hone, hall⟩ :=
    hsame (by simp [hclosing]) (by simp [hclosing]) (by simp [hclosing])
  rw [hclosing] at hone
  cases hone
  exact ⟨⟨hclosing, hall⟩, hsecond, hgoesOn.2 hsecond⟩

end HostedLisp
