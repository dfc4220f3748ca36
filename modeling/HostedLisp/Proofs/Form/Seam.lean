import HostedLisp.Proofs.Form.Consumed
import HostedLisp.Proofs.Form.Inside
import HostedLisp.Proofs.Form.Run
import HostedLisp.Proofs.Token.Seam

/-!
# Forms before another line

Forms are read from tokens, and tokens are read in the same way before another line, so a form is
too, as long as reading it does not run into the end of the text. What runs into it is an open call,
which may go on in the next line. Where no form is left, the forms of the next line come next, and
nothing that was read before has an influence on them.

## Main definitions

* `ParseError.isFinal` — the errors that no further line can change

## Main results

* `Cursor.readForm_followedBy`, `Cursor.readForm_followedBy_of_end` — one form
* `Cursor.readForms_followedBy` — all forms, of a text that can be read to its end
* `Cursor.readForms_followedBy_of_isFinal` — all forms, up to an error that no line can change
* `Cursor.exists_forms_followedBy` — in any case the forms of the text come first
-/

namespace HostedLisp

/-- Whether an error stays when further lines follow. Inside a call the text might have gone on, and
a missing head may be one that is still to come. -/
def ParseError.isFinal : ParseError → Bool
  | .lex cause => cause.isFinal
  | .unexpectedClosing _ => true
  | _ => false

/-- The same reading of a text that goes on with a newline and the line `more`. -/
def Reading.followedBy {α : Type} (more : List Char) (reading : Reading α) : Reading α :=
  { reading with cursor := reading.cursor.followedBy more }

theorem isFinal_unexpectedEnd (call : OpenCall) (pos : Position) :
    (call.unexpectedEnd pos).isFinal = false := by
  rw [OpenCall.unexpectedEnd]
  cases call.head? <;> rfl

namespace Cursor

variable {c : Cursor} (more : List Char)

/-! ### One form -/

theorem readInside_followedBy (calls : OpenCalls) (events : Array Event) (c : Cursor)
    (hfinal : ∀ e, (c.readInside calls events).answer = .error e → e.isFinal) :
    (c.followedBy more).readInside calls events = (c.readInside calls events).followedBy more := by
  fun_induction readInside calls events c with
  | case1 calls events c e c' h =>
    have he : e.isFinal := hfinal _ rfl
    exact readInside_of_error (readNext_followedBy_of_isFinal more h he) ..
  | case2 calls events c c' h =>
    -- A call that is still open could go on in the next line, so its error is not final.
    have hopen := hfinal _ rfl
    rw [isFinal_unexpectedEnd] at hopen
    cases hopen
  | case3 calls events c token c' h hfeed => cases hfinal _ rfl
  | case4 calls events c token c' h e hfeed =>
    rw [readInside_of_token (readNext_followedBy_of_token more h), hfeed]
    rfl
  | case5 calls events c token c' h calls' hfeed ih =>
    rw [readInside_of_token (readNext_followedBy_of_token more h), hfeed]
    exact ih hfinal

theorem readItem_followedBy (hend : c.readItem.answer ≠ .ok none)
    (hfinal : ∀ e, c.readItem.answer = .error e → e.isFinal) :
    (c.followedBy more).readItem = c.readItem.followedBy more := by
  obtain ⟨answer, c', h⟩ : ∃ answer c', c.readNext = (answer, c') := ⟨_, _, rfl⟩
  rw [readItem, h] at hend hfinal
  rw [readItem, readItem, h]
  cases answer with
  | error e =>
    have he : e.isFinal := hfinal _ rfl
    rw [readNext_followedBy_of_isFinal more h he]
    rfl
  | ok token? =>
    cases token? with
    | none => exact absurd rfl hend
    | some token =>
      rw [readNext_followedBy_of_token more h]
      cases token with
      | opening =>
        have hinside : ∀ e, (c'.readInside .start #[.read .opening]).answer = .error e →
            e.isFinal := by
          intro e he
          refine hfinal e ?_
          dsimp only
          rw [he]
          rfl
        dsimp only
        rw [readInside_followedBy more .start _ c' hinside]
        rfl
      | closing | integer _ | string _ | identifier _ => rfl

/-- **A form is read in the same way before another line**, and so is an error that no line can
change. -/
theorem readForm_followedBy (hend : c.readForm.answer ≠ .ok none)
    (hfinal : ∀ e, c.readForm.answer = .error e → e.isFinal) :
    (c.followedBy more).readForm = c.readForm.followedBy more := by
  have hitem : (c.followedBy more).readItem = c.readItem.followedBy more := by
    refine readItem_followedBy more (fun h => hend ?_) fun e h => hfinal e ?_ <;> rw [readForm, h]
  rw [readForm, readForm, hitem, Reading.followedBy]
  obtain ⟨answer, c', events⟩ := c.readItem
  cases answer with
  | error _ => rfl
  | ok item? =>
    cases item? with
    | none => rfl
    | some item => cases item <;> rfl

/-- A form is settled by the tokens in front of it. -/
theorem readForm_congr {c₁ : Cursor} (h : c.readNext = c₁.readNext) : c.readForm = c₁.readForm := by
  rw [readForm, readForm, readItem, readItem, h]

theorem readForm_followedBy_of_end (h : c.readForm.answer = .ok none) :
    (c.followedBy more).readForm = (c.beyond more).readForm := by
  obtain ⟨c₁, hnext⟩ := end_of_readForm h
  exact readForm_congr (readNext_followedBy_of_end more hnext)

/-! ### All forms -/

/-- The run of the longer text begins with the same form. -/
theorem readForms_followedBy_of_form {e : Expr} (h : c.readForm.answer = .ok (some e)) :
    (c.followedBy more).readForms = { (c.readForm.cursor.followedBy more).readForms with
      forms := e :: (c.readForm.cursor.followedBy more).readForms.forms
      events := c.readForm.events ++ (c.readForm.cursor.followedBy more).readForms.events } := by
  have hsame := readForm_followedBy more (c := c) (by simp [h]) (by simp [h])
  have hanswer : (c.followedBy more).readForm.answer = .ok (some e) := by rw [hsame]; exact h
  rw [readForms_of_form hanswer, hsame]
  rfl

/-- **The forms of a text and of another line behind it** are those of both, one after the other. -/
theorem readForms_followedBy (h : c.readForms.error? = none) :
    (c.followedBy more).readForms = { (c.beyond more).readForms with
      forms := c.readForms.forms ++ (c.beyond more).readForms.forms
      events := c.readForms.events ++ (c.beyond more).readForms.events } := by
  induction c using formsInduction with
  | error c cause herror =>
    rw [readForms_of_error herror] at h
    cases h
  | finish c hend =>
    obtain ⟨c₁, hnext⟩ := end_of_readForm hend
    rw [readForms_of_end hend, readForm_of_end hnext, readForms, readFormsOnto_eq,
      readForm_followedBy_of_end more hend, ← readFormsOnto_eq, ← readForms]
    simp
  | form c e hform ih =>
    -- The next line starts at the same place, seen from behind the form.
    rw [readForms_of_form hform] at h
    rw [readForms_followedBy_of_form more hform, readForms_of_form hform, ih h,
      beyond_of_leads more c.leads_readForm]
    simp

/-- **An error that no line can change ends the run as before.** -/
theorem readForms_followedBy_of_isFinal {e : ParseError} (h : c.readForms.error? = some e)
    (hfinal : e.isFinal) :
    (c.followedBy more).readForms
      = { c.readForms with cursor := c.readForms.cursor.followedBy more } := by
  induction c using formsInduction with
  | error c cause herror =>
    rw [readForms_of_error herror] at h
    cases h
    have hsame := readForm_followedBy more (c := c) (by simp [herror]) (by simpa [herror])
    have hanswer : (c.followedBy more).readForm.answer = .error e := by rw [hsame]; exact herror
    rw [readForms_of_error hanswer, readForms_of_error herror, hsame]
    rfl
  | finish c hend =>
    rw [readForms_of_end hend] at h
    cases h
  | form c e' hform ih =>
    rw [readForms_of_form hform] at h
    rw [readForms_followedBy_of_form more hform, readForms_of_form hform, ih h]

/-- Whatever comes of the next line, the forms of the text come first. -/
theorem exists_forms_followedBy (c : Cursor) :
    ∃ es, (c.followedBy more).readForms.forms = c.readForms.forms ++ es := by
  induction c using formsInduction with
  | error c cause h =>
    rw [readForms_of_error h]
    exact ⟨_, rfl⟩
  | finish c h =>
    rw [readForms_of_end h]
    exact ⟨_, rfl⟩
  | form c e h ih =>
    obtain ⟨es, hes⟩ := ih
    rw [readForms_followedBy_of_form more h, readForms_of_form h, hes]
    exact ⟨es, rfl⟩

end Cursor

end HostedLisp
