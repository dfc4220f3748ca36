/-!
# Positions in a text

A position is the place between two characters of a text: a line and a column, both counted from
zero and in characters. Only a newline starts a new line; a tab or a carriage return is one column
like any other character.

The position behind a text depends on that text alone, so `Position.after` is a fold, and the
position behind `s ++ t` is the position behind `t` seen from the end of `s`.

## Main definitions

* `Position.advance`, `Position.after` — the position behind one character, behind a text
* `Position.behind` — a position of a text that itself starts at a given position

## Main results

* `Position.after_append`, `Position.after_behind` — positions behind texts that follow each other
* `Position.line_after`, `Position.column_after_origin` — lines and columns by counting characters
-/

namespace HostedLisp

/-- A place in a text: zero-based line and column, in characters. -/
structure Position where
  /-- The number of newlines before this place. -/
  line : Nat
  /-- The number of characters since the last newline before this place. -/
  column : Nat
  deriving DecidableEq, Inhabited, Repr

namespace Position

/-- Where every text begins. -/
def origin : Position := ⟨0, 0⟩

/-- The position behind the character `c`, which stands at `p`. -/
def advance (p : Position) (c : Char) : Position :=
  if c = '\n' then ⟨p.line + 1, 0⟩ else ⟨p.line, p.column + 1⟩

/-- The position behind the text `cs`, which starts at `p`. -/
def after (p : Position) (cs : List Char) : Position := cs.foldl advance p

/-- Where `p` lies when the text it belongs to starts at `start`: the first line continues the line
of `start`, the others keep their columns. -/
def behind (start p : Position) : Position :=
  if p.line = 0 then ⟨start.line, start.column + p.column⟩ else ⟨start.line + p.line, p.column⟩

/-- Positions are written `[line:column]`. -/
protected def toString (p : Position) : String :=
  "[" ++ toString p.line ++ ":" ++ toString p.column ++ "]"

instance : ToString Position := ⟨Position.toString⟩

/-! ### Walking over texts -/

@[simp] theorem after_nil (p : Position) : p.after [] = p := rfl

@[simp] theorem after_cons (p : Position) (c : Char) (cs : List Char) :
    p.after (c :: cs) = (p.advance c).after cs := rfl

theorem after_append (p : Position) (cs ds : List Char) :
    p.after (cs ++ ds) = (p.after cs).after ds := List.foldl_append

theorem advance_behind (start p : Position) (c : Char) :
    (start.behind p).advance c = start.behind (p.advance c) := by
  by_cases hc : c = '\n' <;> by_cases hp : p.line = 0 <;> simp [advance, behind, hc, hp] <;> omega

/-- A text continues from `start` as it does from the origin, seen from `start`. -/
theorem after_behind (start p : Position) (cs : List Char) :
    (start.behind p).after cs = start.behind (p.after cs) := by
  induction cs generalizing p with
  | nil => rfl
  | cons c cs ih => simp [advance_behind, ih]

/-- The line of a position counts the newlines before it. -/
theorem line_after (p : Position) (cs : List Char) :
    (p.after cs).line = p.line + cs.count '\n' := by
  induction cs generalizing p with
  | nil => rfl
  | cons c cs ih =>
    rw [after_cons, ih, advance]
    by_cases hc : c = '\n'
    · simp [hc]
      omega
    · simp [hc]

/-- The column of a position counts the characters behind the last newline before it. -/
theorem column_after_origin (cs : List Char) :
    (origin.after cs).column = (cs.reverse.takeWhile (· != '\n')).length := by
  -- The last character decides, so the induction is on the text read backwards.
  have hreverse : ∀ ds : List Char,
      (origin.after ds.reverse).column = (ds.takeWhile (· != '\n')).length := by
    intro ds
    induction ds with
    | nil => rfl
    | cons d ds ih =>
      rw [List.reverse_cons, after_append, after_cons, after_nil, advance]
      by_cases hd : d = '\n'
      · simp [hd]
      · simp [hd, ih]
  simpa using hreverse cs.reverse

end Position

end HostedLisp
