import HostedLisp.Text.Position

/-!
# Cursors

A cursor is a place in a text that is being read from front to back: the characters still to come,
how many were consumed, and the position reached. It never looks back, so everything that reads
through a cursor is a function of the unread characters, apart from the positions it reports.

Readers move a cursor only through `Cursor.advance`, which consumes a stretch of characters that
the unread text starts with. Count and position therefore always belong to the consumed text.
-/

namespace HostedLisp

/-- A place in a text that is being read. -/
structure Cursor where
  /-- The characters still to come. -/
  unread : List Char
  /-- The number of characters consumed so far. -/
  offset : Nat
  /-- The position of the next unread character. -/
  pos : Position
  deriving DecidableEq, Inhabited

namespace Cursor

/-- The cursor at the front of a list of characters. -/
def ofList (cs : List Char) : Cursor := ⟨cs, 0, .origin⟩

/-- The cursor at the front of a text. -/
def ofString (s : String) : Cursor := .ofList s.toList

/-- Consumes the stretch `taken`, after which `rest` is left to read. -/
def advance (c : Cursor) (taken rest : List Char) : Cursor :=
  ⟨rest, c.offset + taken.length, c.pos.after taken⟩

/-- Consumes the next `n` characters, or all of them when fewer are left. -/
def drop (c : Cursor) (n : Nat) : Cursor := c.advance (c.unread.take n) (c.unread.drop n)

@[simp] theorem unread_advance (c : Cursor) (taken rest : List Char) :
    (c.advance taken rest).unread = rest := rfl

@[simp] theorem pos_advance (c : Cursor) (taken rest : List Char) :
    (c.advance taken rest).pos = c.pos.after taken := rfl

@[simp] theorem offset_advance (c : Cursor) (taken rest : List Char) :
    (c.advance taken rest).offset = c.offset + taken.length := rfl

theorem advance_advance (c : Cursor) (s t rest rest' : List Char) :
    (c.advance s rest).advance t rest' = c.advance (s ++ t) rest' := by
  simp [advance, Position.after_append, Nat.add_assoc]

end Cursor

end HostedLisp
