import HostedLisp.Eval.World

/-!
# Uses of names

A name is bound, changed, read, searched for, or asked for in a scope, each time through a handle,
and each of these is answered. Uses of names come from several sides, and how they are ordered among
each other is then often left open. What is open is which of the possible interleavings it will be.

## Main definitions

* `Access`, `Reply` — a use of a name; the answer to it
* `Heap.access`, `Heap.accessAll` — one use; many of them, each with its answer
* `Interleaves` — two lists, each in its own order, make up a third one
* `Heap.AgreesOn` — two heaps cannot be told apart by certain names
-/

namespace HostedLisp

/-- A use of a name through a handle. -/
inductive Access where
  /-- Binds a name in a scope itself. -/
  | define (env : Env) (name : String) (value : Value)
  /-- Changes the innermost binding of a name, or binds it where it is changed from. -/
  | set (env : Env) (name : String) (value : Value)
  /-- Reads a name. -/
  | get (env : Env) (name : String)
  /-- Searches for the innermost scope that binds a name. -/
  | lookup (env : Env) (name : String)
  /-- Asks whether a scope itself binds a name. -/
  | isLocal (env : Env) (name : String)

/-- The name that is used. -/
def Access.name : Access → String
  | .define _ name _ | .set _ name _ | .get _ name | .lookup _ name | .isLocal _ name => name

/-- The answer to a use of a name. -/
inductive Reply (ε : Type) where
  /-- The value that was bound before. -/
  | replaced (old? : Option Value)
  /-- The value that is bound, or that there is none. -/
  | value (answer : Except (EvalError ε) Value)
  /-- The scope that binds the name. -/
  | scope (found? : Option Env)
  /-- Whether the name is bound. -/
  | bound (isLocal : Bool)

namespace Heap

variable {ε : Type}

/-- The answer to a use of a name, and the heap behind it. -/
def access (heap : Heap) : Access → Reply ε × Heap
  | .define env name value => (heap.define env name value).map .replaced id
  | .set env name value => (heap.set env name value).map .replaced id
  | .get env name => (.value (heap.value env name), heap)
  | .lookup env name => (.scope (heap.lookup? env name), heap)
  | .isLocal env name => (.bound (heap.isLocal env name), heap)

/-- Uses of names one after the other, each with the answer to it, and the heap behind them. The use
stands beside its answer, so that among others it can still be seen what the answer is to. -/
def accessAll (heap : Heap) : List Access → List (Access × Reply ε) × Heap
  | [] => ([], heap)
  | a :: others =>
    let (reply, heap) := heap.access a
    let (replies, heap) := heap.accessAll others
    ((a, reply) :: replies, heap)

/-- The scopes of two heaps have the same parents, and they bind the names with the property `p` to
the same values. -/
structure AgreesOn (p : String → Prop) (heap heap' : Heap) : Prop where
  /-- The same scopes are there and have the same parents. -/
  parent? : ∀ env, (heap.scope? env).map Scope.parent? = (heap'.scope? env).map Scope.parent?
  /-- The scopes bind the names in the same way. -/
  getLocal? : ∀ env name, p name → heap.getLocal? env name = heap'.getLocal? env name

end Heap

/-- Two lists make up a third one, in which the elements of each keep their order. -/
inductive Interleaves {α : Type} : List α → List α → List α → Prop where
  /-- Nothing is made up of nothing. -/
  | nil : Interleaves [] [] []
  /-- The next element is that of the first list. -/
  | left {a : α} {first second mixed : List α} (others : Interleaves first second mixed) :
      Interleaves (a :: first) second (a :: mixed)
  /-- The next element is that of the second list. -/
  | right {a : α} {first second mixed : List α} (others : Interleaves first second mixed) :
      Interleaves first (a :: second) (a :: mixed)

end HostedLisp
