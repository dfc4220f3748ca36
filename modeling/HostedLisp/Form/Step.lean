import HostedLisp.Form.Read
import HostedLisp.Text.Lookahead

/-!
# Reading in steps

A text can be read in steps of several kinds, in any order and on behind errors: a character is
looked at or handed out, a token is read, or a form, or a part of one. Every step reports its
answer, the position that it leads to, and what happened on the way.

Characters are handed out through a slot. Tokens and forms are read from the place that has been
reached, whether or not the slot holds the next character already, and leave the slot empty.

## Main definitions

* `Step`, `Report` — one step of reading, and what comes of it
* `Cursor.step` — the steps as seen from a cursor
* `Lookahead.step`, `Lookahead.run` — the steps of a reader with a slot; many steps in order
-/

namespace HostedLisp

/-- One step of reading. -/
inductive Step where
  /-- Looks at the next character. -/
  | peek
  /-- Hands out the next character. -/
  | next
  /-- Asks whether there is no further character. -/
  | atEnd
  /-- Reads a token. -/
  | token
  /-- Reads an expression or a closing parenthesis. -/
  | item
  /-- Reads the rest of a call behind its opening parenthesis. -/
  | call
  /-- Reads a form. -/
  | form
  deriving DecidableEq, Inhabited

/-- The answer to a step. -/
inductive Answer where
  /-- The character that was looked at. -/
  | peeked (char? : Option Char)
  /-- The character that was handed out. -/
  | char (char? : Option Char)
  /-- Whether there is no further character. -/
  | atEnd (ended : Bool)
  /-- The token that was read. -/
  | token (answer : Except LexError (Option Token))
  /-- The item that was read. -/
  | item (answer : Except ParseError (Option Item))
  /-- The call that was read. -/
  | call (answer : Except ParseError Expr)
  /-- The form that was read. -/
  | form (answer : Except ParseError (Option Expr))

/-- What comes of a step. -/
structure Report where
  /-- The answer. -/
  answer : Answer
  /-- The position of the next unread character after the step. -/
  pos : Position
  /-- What happened on the way. -/
  events : Array Event

/-- The answer with every place moved by `f`. -/
def Answer.mapPos (f : Position → Position) : Answer → Answer
  | .token answer => .token (answer.mapError (·.mapPos f))
  | .item answer => .item (answer.mapError (·.mapPos f))
  | .call answer => .call (answer.mapError (·.mapPos f))
  | .form answer => .form (answer.mapError (·.mapPos f))
  | answer => answer

/-- The report with every place moved by `f`. -/
def Report.mapPos (f : Position → Position) (report : Report) : Report :=
  ⟨report.answer.mapPos f, f report.pos, report.events.map (·.mapPos f)⟩

/-- What is told of reading a token: only that one was read. -/
def tokenEvents : Except LexError (Option Token) → Array Event
  | .ok (some t) => #[.read t]
  | _ => #[]

/-- The report on reading through a cursor, and the place reached. -/
def Reading.report {α : Type} (answer : Except ParseError α → Answer) (reading : Reading α) :
    Report × Cursor :=
  (⟨answer reading.answer, reading.cursor.pos, reading.events⟩, reading.cursor)

/-- A step from the place of a cursor. -/
def Cursor.step (c : Cursor) : Step → Report × Cursor
  | .peek => (⟨.peeked c.unread.head?, c.pos, #[]⟩, c)
  | .next => (⟨.char c.unread.head?, (c.drop 1).pos, #[]⟩, c.drop 1)
  | .atEnd => (⟨.atEnd c.unread.isEmpty, c.pos, #[]⟩, c)
  | .token =>
    let (answer, c') := c.readNext
    (⟨.token answer, c'.pos, tokenEvents answer⟩, c')
  | .item => c.readItem.report .item
  | .call => c.readCall.report .call
  | .form => c.readForm.report .form

namespace Lookahead

/-- The reader at the place of a cursor, with an empty slot. -/
def ofCursor (c : Cursor) : Lookahead (List Char) := ⟨c.unread, none, c.offset, c.pos⟩

/-- A step of a reader. -/
def step (r : Lookahead (List Char)) : Step → Report × Lookahead (List Char)
  | .peek =>
    let (char?, r') := r.peek
    (⟨.peeked char?, r'.pos, #[]⟩, r')
  | .next =>
    let (char?, r') := r.next
    (⟨.char char?, r'.pos, #[]⟩, r')
  | .atEnd =>
    let (ended, r') := r.atEnd
    (⟨.atEnd ended, r'.pos, #[]⟩, r')
  | reading =>
    let (report, c) := r.toCursor.step reading
    (report, ofCursor c)

/-- Many steps one after the other. -/
def run (r : Lookahead (List Char)) : List Step → List Report × Lookahead (List Char)
  | [] => ([], r)
  | s :: steps =>
    let (report, r') := r.step s
    let (reports, r'') := r'.run steps
    (report :: reports, r'')

end Lookahead

end HostedLisp
