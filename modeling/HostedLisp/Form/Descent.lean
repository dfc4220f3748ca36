import HostedLisp.Form.Read

/-!
# Reading calls by descent

The grammar of calls, said by recursion: behind an opening parenthesis come a head and then
arguments up to a closing parenthesis, and an argument that is a call is read in the same way. A
call in the place of the head is read to its end before it is refused.

Events are left out; they are those of the tokens read.
-/

namespace HostedLisp

namespace Descent

/-- An answer together with the place reached, which is not before the place `start`. -/
abbrev Step (start : Cursor) : Type :=
  { reached : Except ParseError Expr × Cursor //
    reached.2.unread.length ≤ start.unread.length }

mutual

/-- Reads a call behind its opening parenthesis. -/
def readCall (c : Cursor) : Step c :=
  match h : c.readNext with
  | (.error e, c') => ⟨(.error (.lex e), c'), by simpa [h] using c.length_readNext_le⟩
  | (.ok none, c') =>
    ⟨(.error (.callTarget c'.pos), c'), by simpa [h] using c.length_readNext_le⟩
  | (.ok (some token), c') =>
    have shorter : c'.unread.length < c.unread.length := Cursor.length_readNext_lt h
    match token with
    | .opening =>
      let ⟨(answer, c''), le⟩ := readCall c'
      match answer with
      | .error e => ⟨(.error e, c''), Nat.le_trans le (Nat.le_of_lt shorter)⟩
      | .ok _ => ⟨(.error (.callTarget c''.pos), c''), Nat.le_trans le (Nat.le_of_lt shorter)⟩
    | .identifier name =>
      match Atom.ofName name with
      | .var function =>
        let ⟨reached, le⟩ := readArguments function [] c'
        ⟨reached, Nat.le_trans le (Nat.le_of_lt shorter)⟩
      | _ => ⟨(.error (.callTarget c'.pos), c'), Nat.le_of_lt shorter⟩
    | _ => ⟨(.error (.callTarget c'.pos), c'), Nat.le_of_lt shorter⟩
termination_by c.unread.length

/-- Reads the arguments of a call behind those in `arguments`, the last one first, and its closing
parenthesis. -/
def readArguments (function : String) (arguments : List Expr) (c : Cursor) : Step c :=
  match h : c.readNext with
  | (.error e, c') => ⟨(.error (.lex e), c'), by simpa [h] using c.length_readNext_le⟩
  | (.ok none, c') =>
    ⟨(.error (.unexpectedEnd function c'.pos), c'), by simpa [h] using c.length_readNext_le⟩
  | (.ok (some token), c') =>
    have shorter : c'.unread.length < c.unread.length := Cursor.length_readNext_lt h
    match token with
    | .closing => ⟨(.ok (.call function arguments.reverse), c'), Nat.le_of_lt shorter⟩
    | .opening =>
      let ⟨(answer, c''), le⟩ := readCall c'
      have le : c''.unread.length ≤ c'.unread.length := le
      match answer with
      | .error e => ⟨(.error e, c''), Nat.le_trans le (Nat.le_of_lt shorter)⟩
      | .ok e =>
        let ⟨reached, le'⟩ := readArguments function (e :: arguments) c''
        ⟨reached, Nat.le_trans le' (Nat.le_trans le (Nat.le_of_lt shorter))⟩
    | .integer value =>
      let ⟨reached, le⟩ := readArguments function (.atom (.integer value) :: arguments) c'
      ⟨reached, Nat.le_trans le (Nat.le_of_lt shorter)⟩
    | .string content =>
      let ⟨reached, le⟩ := readArguments function (.atom (.string content) :: arguments) c'
      ⟨reached, Nat.le_trans le (Nat.le_of_lt shorter)⟩
    | .identifier name =>
      let ⟨reached, le⟩ := readArguments function (.atom (.ofName name) :: arguments) c'
      ⟨reached, Nat.le_trans le (Nat.le_of_lt shorter)⟩
termination_by c.unread.length

end

/-- Reads an expression or a closing parenthesis. -/
def readItem (c : Cursor) : Except ParseError (Option Item) × Cursor :=
  match c.readNext with
  | (.error e, c') => (.error (.lex e), c')
  | (.ok none, c') => (.ok none, c')
  | (.ok (some .opening), c') =>
    let (answer, c'') := (readCall c').1
    (answer.map (some ∘ .expr), c'')
  | (.ok (some .closing), c') => (.ok (some .closing), c')
  | (.ok (some (.integer value)), c') => (.ok (some (.expr (.atom (.integer value)))), c')
  | (.ok (some (.string content)), c') => (.ok (some (.expr (.atom (.string content)))), c')
  | (.ok (some (.identifier name)), c') => (.ok (some (.expr (.atom (.ofName name)))), c')

end Descent

end HostedLisp
