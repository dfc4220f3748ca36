import HostedLisp.Form.Read

/-!
# Open calls on a plain stack

`OpenCalls` holds at least one call. A reader can as well keep its open calls on a plain stack, the
innermost one first. It then has to say what happens where no call is open: a closing parenthesis
closes nothing and is refused, and a text that ends counts as ending inside a call of which nothing
has been read.

A turn of this reader takes a token or the end of the text. What can be reached from a stack by
turns is a relation of its own, so that it can be said which stacks reading ever meets.

Events are left out; they are those of the tokens read.

## Main definitions

* `CallStack.turn` — what a token, or the end of the text, does to a stack
* `CallStack.read` — reads on until an answer is found
* `CallStack.Reaches` — the stacks and places that reading meets
-/

namespace HostedLisp

namespace CallStack

/-- What a turn leads to. -/
inductive Turn where
  /-- Reading goes on with another stack. -/
  | next (stack : List OpenCall)
  /-- Reading is over. -/
  | done (answer : Except ParseError Expr)

/-- Hands an expression, which ends before `pos`, to the innermost call. Where no call is open it is
what was to be read. -/
def hand (stack : List OpenCall) (e : Expr) (pos : Position) : Turn :=
  match stack with
  | [] => .done (.ok e)
  | call :: outer =>
    match call.add? e with
    | some call => .next (call :: outer)
    | none => .done (.error (.callTarget pos))

/-- Takes a token that ends before `pos`, or the end of the text at `pos`. -/
def turn (stack : List OpenCall) (token? : Option Token) (pos : Position) : Turn :=
  match token? with
  | none => .done (.error ((stack.headD .empty).unexpectedEnd pos))
  | some .opening => .next (.empty :: stack)
  | some .closing =>
    match stack with
    | [] => .done (.error (.unexpectedClosing pos))
    | call :: outer =>
      match call.close? with
      | some e => hand outer e pos
      | none => .done (.error (.callTarget pos))
  | some (.integer value) => hand stack (.atom (.integer value)) pos
  | some (.string content) => hand stack (.atom (.string content)) pos
  | some (.identifier name) => hand stack (.atom (.ofName name)) pos

/-- Reading is over where the text ends. -/
theorem turn_none_ne_next (stack stack' : List OpenCall) (pos : Position) :
    turn stack none pos ≠ .next stack' := by
  simp [turn]

/-- Reads on until an answer is found. -/
def read (stack : List OpenCall) (c : Cursor) : Except ParseError Expr × Cursor :=
  match _h : c.readNext with
  | (.error e, c') => (.error (.lex e), c')
  | (.ok token?, c') =>
    match _ht : turn stack token? c'.pos with
    | .done answer => (answer, c')
    | .next stack => read stack c'
termination_by c.unread.length
decreasing_by
  cases token? with
  | none => exact (turn_none_ne_next _ _ _ _ht).elim
  | some t => exact Cursor.length_readNext_lt _h

/-- Some turns lead from one stack and place to another stack and place. -/
inductive Reaches : List OpenCall → Cursor → List OpenCall → Cursor → Prop where
  /-- Without any turn nothing changes. -/
  | refl {stack : List OpenCall} {c : Cursor} : Reaches stack c stack c
  /-- A turn after which reading goes on, and then others. -/
  | turn {stack stack₁ stack₂ : List OpenCall} {c c₁ c₂ : Cursor} {token? : Option Token}
      (reads : c.readNext = (.ok token?, c₁)) (leads : turn stack token? c₁.pos = .next stack₁)
      (others : Reaches stack₁ c₁ stack₂ c₂) : Reaches stack c stack₂ c₂

end CallStack

end HostedLisp
