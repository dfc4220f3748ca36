import HostedLisp.Text.Cursor

/-!
# Reading with one character of lookahead

A character source is a state machine: each pull answers with a character, or with none when it has
nothing to give at the moment. Nothing keeps a source from giving a character again after it has
given none; a list of characters is a source that never does.

`Lookahead` puts a slot in front of a source. Peeking fills the slot with what the source answered,
a missing character included; the following `next` hands out the content of the slot and empties it,
and with an empty slot it pulls the source. Only characters that `next` hands out are counted.

## Main definitions

* `CharSource` — a state machine that characters are pulled from
* `Lookahead` — a source, the slot, and the count and position of what was handed out
* `Lookahead.peek`, `Lookahead.next`, `Lookahead.atEnd` — the steps of reading
-/

namespace HostedLisp

/-- A state machine that characters can be pulled from. -/
class CharSource (ι : Type) where
  /-- The next character, if there is one now, and the state of the source after the pull. -/
  pull : ι → Option Char × ι

/-- A list gives its characters in order and then none forever. -/
instance : CharSource (List Char) where
  pull
    | [] => (none, [])
    | c :: cs => (some c, cs)

/-- A character source with a slot for one answer pulled ahead of time. -/
structure Lookahead (ι : Type) where
  /-- The source, in the state after the last pull. -/
  source : ι
  /-- The answer that was peeked at and not yet handed out. -/
  slot : Option (Option Char)
  /-- The number of characters handed out so far. -/
  offset : Nat
  /-- The position behind the characters handed out so far. -/
  pos : Position
  deriving DecidableEq

namespace Lookahead

variable {ι : Type}

/-- Reading starts with an empty slot. -/
def ofSource (source : ι) : Lookahead ι := ⟨source, none, 0, .origin⟩

/-- Reads a text through a list of its characters. -/
def ofString (s : String) : Lookahead (List Char) := .ofSource s.toList

/-- Counts one character that is handed out. -/
def count (r : Lookahead ι) (c : Char) : Lookahead ι :=
  { r with offset := r.offset + 1, pos := r.pos.advance c }

variable [CharSource ι]

/-- The next character without handing it out. -/
def peek (r : Lookahead ι) : Option Char × Lookahead ι :=
  match r.slot with
  | some answer => (answer, r)
  | none =>
    let (answer, source) := CharSource.pull r.source
    (answer, { r with source, slot := some answer })

/-- Hands out the next character. -/
def next (r : Lookahead ι) : Option Char × Lookahead ι :=
  let (answer, r) := match r.slot with
    | some answer => (answer, { r with slot := none })
    | none =>
      let (answer, source) := CharSource.pull r.source
      (answer, { r with source })
  match answer with
  | some c => (some c, r.count c)
  | none => (none, r)

/-- Whether no character can be peeked at. -/
def atEnd (r : Lookahead ι) : Bool × Lookahead ι :=
  let (answer, r) := r.peek
  (answer.isNone, r)

/-! ### Reading lists -/

/-- Hands out up to `n` characters. -/
def takeOnto (taken : List Char) : Nat → Lookahead ι → List Char × Lookahead ι
  | 0, r => (taken.reverse, r)
  | n + 1, r =>
    match r.next with
    | (some c, r) => takeOnto (c :: taken) n r
    | (none, r) => (taken.reverse, r)

/-- Hands out the next `n` characters, or fewer when the source stops giving them. -/
def take (n : Nat) (r : Lookahead ι) : List Char × Lookahead ι := r.takeOnto [] n

/-- The characters that are left to hand out. -/
def unread (r : Lookahead (List Char)) : List Char :=
  match r.slot with
  | some (some c) => c :: r.source
  | _ => r.source

/-- The cursor at the place that reading has reached. -/
def toCursor (r : Lookahead (List Char)) : Cursor := ⟨r.unread, r.offset, r.pos⟩

end Lookahead

end HostedLisp
