import HostedLisp.Event
import HostedLisp.Form.OpenCall
import HostedLisp.Token.Scan

/-!
# Reading forms

A form is an expression that stands in no other one. Reading pulls one token at a time through a
cursor and stops right behind the last token of what it reads, so a program can be evaluated form by
form, and an error further on is met only when reading gets there. Reading can go on behind an
error; what follows is then read as if no call had been open.

## Main definitions

* `Cursor.readCall` — the rest of a call behind its opening parenthesis
* `Cursor.readItem` — an expression or a closing parenthesis
* `Cursor.readForm`, `Cursor.readForms` — the next form; all forms up to the end or the first error
* `parseExpr`, `parseScript` — a text as exactly one form, as any number of forms

## Main results

* `length_readForm_lt` — a form that was read leaves less to read
-/

namespace HostedLisp

/-- The outcome of reading something through a cursor. -/
structure Reading (α : Type) where
  /-- What was read, or why it could not be. -/
  answer : Except ParseError α
  /-- The place reached. -/
  cursor : Cursor
  /-- What happened on the way. -/
  events : Array Event

/-- What can stand at one place of a text. -/
inductive Item where
  /-- An expression. -/
  | expr (e : Expr)
  /-- A closing parenthesis, which has a meaning only to a call around it. -/
  | closing

namespace Cursor

/-! ### Calls -/

/-- Reads on inside `calls` until the outermost one is closed. -/
def readInside (calls : OpenCalls) (events : Array Event) (c : Cursor) : Reading Expr :=
  match _h : c.readNext with
  | (.error e, c') => ⟨.error (.lex e), c', events⟩
  | (.ok none, c') => ⟨.error (calls.innermost.unexpectedEnd c'.pos), c', events⟩
  | (.ok (some token), c') =>
    match calls.feed? token with
    | none => ⟨.error (.callTarget c'.pos), c', events.push (.read token)⟩
    | some (.complete e) => ⟨.ok e, c', events.push (.read token)⟩
    | some (.reading calls) => readInside calls (events.push (.read token)) c'
termination_by c.unread.length
decreasing_by exact length_readNext_lt _h

/-- Reads the rest of a call behind its opening parenthesis. -/
def readCall (c : Cursor) : Reading Expr := c.readInside .start #[]

/-! ### Forms -/

/-- Reads an expression or a closing parenthesis. There is neither once the text has ended. -/
def readItem (c : Cursor) : Reading (Option Item) :=
  match c.readNext with
  | (.error e, c') => ⟨.error (.lex e), c', #[]⟩
  | (.ok none, c') => ⟨.ok none, c', #[]⟩
  | (.ok (some token), c') =>
    let events := #[.read token]
    match token with
    | .opening =>
      let call := c'.readInside .start events
      { call with answer := call.answer.map (some ∘ .expr) }
    | .closing => ⟨.ok (some .closing), c', events⟩
    | .integer value => ⟨.ok (some (.expr (.atom (.integer value)))), c', events⟩
    | .string content => ⟨.ok (some (.expr (.atom (.string content)))), c', events⟩
    | .identifier name => ⟨.ok (some (.expr (.atom (.ofName name)))), c', events⟩

/-- Reads the next form. There is none once the text has ended. -/
def readForm (c : Cursor) : Reading (Option Expr) :=
  let item := c.readItem
  match item.answer with
  | .error e => { item with answer := .error e }
  | .ok none => { item with answer := .ok none }
  | .ok (some .closing) => { item with answer := .error (.unexpectedClosing item.cursor.pos) }
  | .ok (some (.expr e)) =>
    { item with answer := .ok (some e), events := item.events.push (.parsed item.cursor.pos) }

/-! ### Less is left to read -/

theorem length_readNext_le (c : Cursor) : c.readNext.2.unread.length ≤ c.unread.length := by
  have hgap := c.length_skipGap_le
  simp only [readNext]
  split
  · exact hgap
  · next heq =>
    have := congrArg List.length (append_of_front_token heq)
    simp only [List.length_append] at this
    simp only [unread_advance]
    omega
  · next heq =>
    have := congrArg List.length (append_of_front_overflow heq)
    simp only [List.length_append] at this
    simp only [unread_advance]
    omega
  · simp
  · exact hgap

theorem length_readInside_le (calls : OpenCalls) (events : Array Event) (c : Cursor) :
    (c.readInside calls events).cursor.unread.length ≤ c.unread.length := by
  fun_induction readInside calls events c with
  | case1 _ _ c _ _ h | case2 _ _ c _ h | case3 _ _ c _ _ h | case4 _ _ c _ _ h =>
    simpa [h] using c.length_readNext_le
  | case5 _ _ _ _ _ h _ _ ih =>
    have := length_readNext_lt h
    omega

theorem length_readItem_lt {c : Cursor} {item : Item} (h : c.readItem.answer = .ok (some item)) :
    c.readItem.cursor.unread.length < c.unread.length := by
  unfold readItem at h ⊢
  split at h
  · cases h
  · cases h
  · next token c' hread =>
    have hlt := length_readNext_lt hread
    have hle := length_readInside_le .start #[.read token] c'
    cases token <;> simp only at h ⊢ <;> omega

/-- A form that was read leaves less to read. -/
theorem length_readForm_lt {c : Cursor} {e : Expr} (h : c.readForm.answer = .ok (some e)) :
    c.readForm.cursor.unread.length < c.unread.length := by
  unfold readForm at h ⊢
  simp only at h ⊢
  split at h <;> simp_all [length_readItem_lt]

end Cursor

/-! ### Whole texts -/

/-- The outcome of reading forms until the text ends or no form can be read. -/
structure FormRun where
  /-- The forms that were read, in order. -/
  forms : List Expr
  /-- The error that ended the run, if it was not the end of the text. -/
  error? : Option ParseError
  /-- The place reached. -/
  cursor : Cursor
  /-- What happened on the way. -/
  events : Array Event

/-- The forms of a run that reached the end of its text. -/
def FormRun.result (run : FormRun) : Except ParseError (List Expr) :=
  match run.error? with
  | none => .ok run.forms
  | some e => .error e

namespace Cursor

/-- Reads on behind the forms `forms`, the last one first. -/
def readFormsOnto (forms : List Expr) (events : Array Event) (c : Cursor) : FormRun :=
  let form := c.readForm
  match _h : form.answer with
  | .error e => ⟨forms.reverse, some e, form.cursor, events ++ form.events⟩
  | .ok none => ⟨forms.reverse, none, form.cursor, events ++ form.events⟩
  | .ok (some e) => readFormsOnto (e :: forms) (events ++ form.events) form.cursor
termination_by c.unread.length
decreasing_by exact length_readForm_lt _h

/-- Reads forms up to the end of the text or the first error. -/
def readForms (c : Cursor) : FormRun := c.readFormsOnto [] #[]

/-- Reads the next form and then one token more, which must not be there. -/
def readOnlyForm (c : Cursor) : Reading Expr :=
  let form := c.readForm
  match form.answer with
  | .error e => { form with answer := .error e }
  | .ok none => { form with answer := .error .emptyInput }
  | .ok (some e) =>
    match form.cursor.readNext with
    | (.error cause, c') => ⟨.error (.lex cause), c', form.events⟩
    | (.ok none, c') => ⟨.ok e, c', form.events⟩
    | (.ok (some token), c') => ⟨.error .unexpectedTokens, c', form.events.push (.read token)⟩

end Cursor

/-- Reads a text as exactly one form. -/
def parseExpr (source : String) : Except ParseError Expr :=
  (Cursor.ofString source).readOnlyForm.answer

/-- Reads a text as a sequence of forms. -/
def parseScript (source : String) : Except ParseError (List Expr) :=
  (Cursor.ofString source).readForms.result

end HostedLisp
