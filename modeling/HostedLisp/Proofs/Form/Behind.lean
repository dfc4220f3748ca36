import Mathlib
import HostedLisp.Proofs.Form.Inside
import HostedLisp.Proofs.Form.Run

/-!
# Texts that start at another position

Reading looks at the unread characters alone, so a text is read in the same way wherever it starts,
and only the positions that are reported know where that is. `start.behind c` is the place of `c` in
a text that itself begins at the cursor `start`: its first line continues the line of `start`, and
the others keep their columns. What is read from there is what is read from `c`, with every position
moved in this way.

Every cursor is the front of its own unread text, seen from itself, so this relates any two places
with the same text in front of them.

## Main definitions

* `Cursor.behind` — a place of a text that begins at another cursor
* `TokenRun.behind`, `Reading.behind`, `FormRun.behind` — what is read from there

## Main results

* `Cursor.readNext_behind`, `Cursor.readAll_behind` — tokens
* `Cursor.readForm_behind`, `Cursor.readForms_behind` — forms
-/

namespace HostedLisp

/-- The cursor at the place of `c` in a text that begins at the place of `start`. -/
def Cursor.behind (start c : Cursor) : Cursor :=
  ⟨c.unread, start.offset + c.offset, start.pos.behind c.pos⟩

/-- The same tokens, read from a text that begins at `start`. -/
def TokenRun.behind (start : Cursor) (run : TokenRun) : TokenRun :=
  ⟨run.tokens, run.error?.map (·.mapPos start.pos.behind), start.behind run.cursor⟩

/-- The same reading of a text that begins at `start`. -/
def Reading.behind {α : Type} (start : Cursor) (reading : Reading α) : Reading α :=
  ⟨reading.answer.mapError (·.mapPos start.pos.behind), start.behind reading.cursor,
    reading.events.map (·.mapPos start.pos.behind)⟩

/-- The same forms, read from a text that begins at `start`. -/
def FormRun.behind (start : Cursor) (run : FormRun) : FormRun :=
  ⟨run.forms, run.error?.map (·.mapPos start.pos.behind), start.behind run.cursor,
    run.events.map (·.mapPos start.pos.behind)⟩

namespace Cursor

variable (start c : Cursor)

/-- A cursor is the front of its unread text, seen from itself. -/
theorem behind_ofList : c.behind (ofList c.unread) = c := by
  obtain ⟨unread, offset, ⟨line, column⟩⟩ := c
  simp [behind, ofList, Position.behind, Position.origin]

theorem behind_advance (taken rest : List Char) :
    start.behind (c.advance taken rest) = (start.behind c).advance taken rest := by
  simp [behind, advance, Position.after_behind, Nat.add_assoc]

/-! ### Tokens -/

theorem skipGap_behind : (start.behind c).skipGap = start.behind c.skipGap :=
  (behind_advance start c _ _).symm

/-- **A token is read in the same way from any start.** -/
theorem readNext_behind :
    (start.behind c).readNext
      = (c.readNext.1.mapError (·.mapPos start.pos.behind), start.behind c.readNext.2) := by
  have hunread : (start.behind c.skipGap).unread = c.skipGap.unread := rfl
  rw [readNext, readNext, skipGap_behind, hunread]
  cases front c.skipGap.unread with
  | nothing | unexpected _ => rfl
  | token _ _ _ | overflow _ _ | unterminated =>
    simp only [behind_advance]
    rfl

variable {c} in
theorem readNext_behind_of {answer : Except LexError (Option Token)} {c' : Cursor}
    (h : c.readNext = (answer, c')) :
    (start.behind c).readNext = (answer.mapError (·.mapPos start.pos.behind), start.behind c') := by
  rw [readNext_behind, h]

theorem readOnto_behind (read : Array Token) :
    (start.behind c).readOnto read = (c.readOnto read).behind start := by
  fun_induction readOnto read c with
  | case1 read c t c' h ih =>
    rw [readOnto_eq, readNext_behind_of start h]
    exact ih
  | case2 read c c' h | case3 read c e c' h =>
    rw [readOnto_eq, readNext_behind_of start h]
    rfl

theorem readAll_behind : (start.behind c).readAll = c.readAll.behind start :=
  readOnto_behind start c #[]

/-! ### Forms -/

theorem mapPos_unexpectedEnd (f : Position → Position) (call : OpenCall) (pos : Position) :
    (call.unexpectedEnd pos).mapPos f = call.unexpectedEnd (f pos) := by
  rw [OpenCall.unexpectedEnd, OpenCall.unexpectedEnd]
  cases call.head? <;> rfl

theorem readInside_behind (calls : OpenCalls) (events : Array Event) :
    (start.behind c).readInside calls (events.map (·.mapPos start.pos.behind))
      = (c.readInside calls events).behind start := by
  fun_induction readInside calls events c with
  | case1 calls events c e c' h => exact readInside_of_error (readNext_behind_of start h) ..
  | case2 calls events c c' h =>
    rw [readInside_of_end (readNext_behind_of start h), Reading.behind, Except.mapError,
      mapPos_unexpectedEnd]
    rfl
  | case3 calls events c token c' h hfeed | case4 calls events c token c' h e hfeed =>
    rw [readInside_of_token (readNext_behind_of start h), hfeed, Reading.behind, Array.map_push]
    rfl
  | case5 calls events c token c' h calls' hfeed ih =>
    rw [readInside_of_token (readNext_behind_of start h), hfeed, ← ih, Array.map_push]
    rfl

theorem readItem_behind : (start.behind c).readItem = c.readItem.behind start := by
  rw [readItem, readItem, readNext_behind]
  obtain ⟨answer, c'⟩ := c.readNext
  cases answer with
  | error _ => simp [Reading.behind, Except.mapError, ParseError.mapPos]
  | ok token? =>
    cases token? with
    | none => simp [Reading.behind, Except.mapError]
    | some token =>
      cases token with
      | opening =>
        have hcall := readInside_behind start c' .start #[.read .opening]
        rw [List.map_toArray] at hcall
        dsimp only [Except.mapError, List.map, Event.mapPos] at hcall ⊢
        rw [hcall]
        obtain ⟨answer, c'', events⟩ := c'.readInside .start #[.read .opening]
        cases answer <;> rfl
      | closing | integer _ | string _ | identifier _ =>
        simp [Reading.behind, Except.mapError, Event.mapPos]

/-- **A form is read in the same way from any start.** -/
theorem readForm_behind : (start.behind c).readForm = c.readForm.behind start := by
  rw [readForm, readForm, readItem_behind]
  obtain ⟨answer, c', events⟩ := c.readItem
  cases answer with
  | error _ => rfl
  | ok item? =>
    cases item? with
    | none => rfl
    | some item =>
      cases item with
      | closing => rfl
      | expr e =>
        rw [Reading.behind, Reading.behind, Array.map_push]
        rfl

variable {c} in
theorem answer_readForm_behind {answer : Except ParseError (Option Expr)}
    (h : c.readForm.answer = answer) :
    (start.behind c).readForm.answer = answer.mapError (·.mapPos start.pos.behind) := by
  rw [readForm_behind, Reading.behind, h]

/-- **All forms are read in the same way from any start.** -/
theorem readForms_behind : (start.behind c).readForms = c.readForms.behind start := by
  induction c using formsInduction with
  | error c cause h =>
    rw [readForms_of_error h, readForms_of_error (answer_readForm_behind start h), readForm_behind]
    rfl
  | finish c h =>
    rw [readForms_of_end h, readForms_of_end (answer_readForm_behind start h), readForm_behind]
    rfl
  | form c e h ih =>
    rw [readForms_of_form h, readForms_of_form (answer_readForm_behind start h), readForm_behind,
      Reading.behind]
    dsimp only
    rw [ih]
    simp [FormRun.behind]

end Cursor

end HostedLisp
