import HostedLisp.Form.Read

/-!
# Places inside a program

A text that can be read may be cut off at any place. Whether what is left can still be read depends
on what the place lies in: a string literal that has begun, a call that is open, or neither.

The tokens that end before a place settle which calls are open there, and which of them have a head.
The next token may have begun before the place; a string literal is then open, and a name is there
in part.

## Main definitions

* `openHeads` — the heads of the calls that are open behind some tokens
* `Cursor.tokensWithin` — the tokens that end before a place
* `Place`, `Cursor.placeAt` — what a place lies in
* `Place.error?` — why a text that ends at such a place cannot be read
-/

namespace HostedLisp

/-- One token more: the heads of the calls that are open behind it, the innermost call first. A call
without a head has none yet. -/
def Token.nest (heads : List (Option String)) : Token → List (Option String)
  | .opening => none :: heads
  | .closing => heads.tail
  | .identifier name =>
    match heads with
    | none :: outer => some name :: outer
    | heads => heads
  | _ => heads

/-- The heads of the calls that are open behind some tokens, the innermost call first. -/
def openHeads (ts : List Token) : List (Option String) := ts.foldl Token.nest []

/-- What a place of a text lies in. -/
inductive Place where
  /-- In no string literal and in no call. -/
  | outside
  /-- Behind the opening quote of a string literal, which stands at `start`, and before the closing
  one. -/
  | inString (start : Position)
  /-- In a call, the innermost one if there are several. As much as there is of its head before the
  place is `head?`. -/
  | inCall (head? : Option String)
  deriving DecidableEq, Inhabited

/-- What a place lies in that is in no string literal. The calls that are open have the heads
`heads`, and the next token has begun with `begun`. -/
def Place.among (heads : List (Option String)) (begun : List Char) : Place :=
  match heads with
  | [] => .outside
  | head? :: _ => .inCall (head?.or (if begun = [] then none else some (String.ofList begun)))

/-- Why a text that ends at a place, which is `stop`, cannot be read. A head that has the name of a
truth value is none. -/
def Place.error? (stop : Position) : Place → Option ParseError
  | .outside => none
  | .inString start => some (.lex (.unterminatedString start))
  | .inCall none => some (.callTarget stop)
  | .inCall (some head) =>
    if head = "true" ∨ head = "false" then some (.callTarget stop)
    else some (.unexpectedEnd head stop)

namespace Cursor

/-- The tokens that end within the first `n` characters of the text, and the place behind them. -/
def tokensWithin (n : Nat) (c : Cursor) : List Token × Cursor :=
  match _h : c.readNext with
  | (.ok (some t), c') =>
    if c'.offset ≤ n then
      let (ts, last) := tokensWithin n c'
      (t :: ts, last)
    else ([], c)
  | _ => ([], c)
termination_by c.unread.length
decreasing_by exact length_readNext_lt _h

/-- As much of the text behind the next gap as there is within the first `n` characters. -/
def begun (n : Nat) (c : Cursor) : List Char := c.skipGap.unread.take (n - c.skipGap.offset)

/-- What the place behind the first `n` characters of the text lies in, where this is the end of the
last token before it and calls with the heads `heads` are open. -/
def placeBehind (n : Nat) (heads : List (Option String)) (c : Cursor) : Place :=
  match c.readNext.1 with
  | .ok (some (.string _)) =>
    if c.begun n = [] then .among heads [] else .inString c.skipGap.pos
  | _ => .among heads (c.begun n)

/-- What the place behind the first `n` characters of the text lies in. -/
def placeAt (n : Nat) (c : Cursor) : Place :=
  let (ts, last) := c.tokensWithin n
  last.placeBehind n (openHeads ts)

end Cursor

end HostedLisp
