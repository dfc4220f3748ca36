import HostedLisp.Expr.Basic
import HostedLisp.Form.Error

/-!
# Calls that are still open

While the inside of a call is read, the call is open: its head and the arguments so far are known,
its closing parenthesis is still to come. Open calls nest, and tokens go to the innermost one.
Feeding a token needs no position and no text; it can go wrong in one way only, when a call would
get a head that is no name.

## Implementation notes

`OpenCalls` cannot be empty, so reading a call never meets a closing parenthesis that closes
nothing. Arguments are kept with the last one first, which makes adding one a constant step.
-/

namespace HostedLisp

/-- The atom that a name denotes: `true` and `false` are literals, every other name a variable. -/
def Atom.ofName (name : String) : Atom :=
  if name = "true" then .bool true else if name = "false" then .bool false else .var name

/-- A call whose closing parenthesis has not been read. -/
structure OpenCall where
  /-- The head, once it has been read. -/
  head? : Option String
  /-- The arguments so far, the last one first. -/
  arguments : List Expr

namespace OpenCall

/-- A call of which only the opening parenthesis has been read. -/
def empty : OpenCall := ⟨none, []⟩

/-- Adds the next part of a call. The first part becomes the head and has to be a variable. -/
def add? (call : OpenCall) (e : Expr) : Option OpenCall :=
  match call.head? with
  | some _ => some { call with arguments := e :: call.arguments }
  | none =>
    match e with
    | .atom (.var name) => some { call with head? := some name }
    | _ => none

/-- The call as an expression, now that its closing parenthesis has been read. It needs a head. -/
def close? (call : OpenCall) : Option Expr :=
  call.head?.map fun head => .call head call.arguments.reverse

/-- The error of a text that ends inside a call. -/
def unexpectedEnd (call : OpenCall) (pos : Position) : ParseError :=
  match call.head? with
  | some head => .unexpectedEnd head pos
  | none => .callTarget pos

end OpenCall

/-- The calls that are open at some place of a text, at least one. -/
structure OpenCalls where
  /-- The call that the next token belongs to. -/
  innermost : OpenCall
  /-- The calls around it, from the inside to the outside. -/
  outer : List OpenCall

/-- What a token inside an open call leads to. -/
inductive Progress where
  /-- Some calls are open. -/
  | reading (calls : OpenCalls)
  /-- The outermost call was closed. -/
  | complete (e : Expr)

namespace OpenCalls

/-- A single open call of which only the opening parenthesis has been read. -/
def start : OpenCalls := ⟨.empty, []⟩

/-- Adds a whole expression to the innermost call. -/
def add? (calls : OpenCalls) (e : Expr) : Option OpenCalls :=
  (calls.innermost.add? e).map fun innermost => { calls with innermost }

/-- Closes the innermost call and adds it to the call around it. -/
def close? (calls : OpenCalls) : Option Progress :=
  calls.innermost.close?.bind fun e =>
    match calls.outer with
    | [] => some (.complete e)
    | call :: outer => (call.add? e).map fun innermost => .reading ⟨innermost, outer⟩

/-- Feeds a token to the innermost call. There is no result when a call would get a head that is no
name. -/
def feed? (calls : OpenCalls) : Token → Option Progress
  | .opening => some (.reading ⟨.empty, calls.innermost :: calls.outer⟩)
  | .closing => calls.close?
  | .integer value => (calls.add? (.atom (.integer value))).map .reading
  | .string content => (calls.add? (.atom (.string content))).map .reading
  | .identifier name => (calls.add? (.atom (.ofName name))).map .reading

end OpenCalls

end HostedLisp
