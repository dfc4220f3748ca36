import HostedLisp.Value
import Std.Data.TreeMap.Basic

/-!
# Scopes

Names are bound to values in scopes. A scope may be nested in another one, its parent, and a name is
looked up along the chain of scopes from the inside to the outside. Scopes are shared: a handle
names a scope, any number of handles and nested scopes may lead to it, and a binding that is made
through one of them is seen through all.

All scopes live in a heap, and a handle is the index of its scope there. Scopes are never removed.

## Implementation notes

A scope is nested in one that is there already, so parents have smaller indices, and the chain of
scopes from any handle is finite. This is a field of `Heap`, which lets the walks along a chain
recurse on the index without looking at anything else.

All operations are total. A handle that names no scope binds nothing, and a scope nested in it is a
scope without a parent.

## Main definitions

* `Env`, `Scope`, `Heap` — handles, scopes, and all scopes together
* `Heap.chain` — the scopes from a handle to the outermost one
* `Heap.lookup?`, `Heap.get?` — the innermost scope that binds a name; the value bound there
* `Heap.define`, `Heap.set` — bind a name in a scope; change its innermost binding

## Main results

* `Heap.lookup?_eq_find?` — looking up a name is searching the chain for it
-/

namespace HostedLisp

/-- A handle to a scope. -/
structure Env where
  /-- The index of the scope in the heap. -/
  index : Nat
  deriving DecidableEq, Inhabited

/-- Names bound to values, possibly inside another scope. -/
structure Scope where
  /-- The scope around this one. -/
  parent? : Option Env
  /-- The bindings made in this scope itself. -/
  vars : Std.TreeMap String Value

/-- All scopes there are. -/
structure Heap where
  /-- The scopes in the order in which they were made. -/
  scopes : Array Scope
  /-- A scope is made after the scope around it. -/
  parent_lt : ∀ (i : Nat) (h : i < scopes.size), ∀ p ∈ scopes[i].parent?, p.index < i

namespace Heap

/-- No scopes at all. -/
def empty : Heap := ⟨#[], by simp⟩

instance : Inhabited Heap := ⟨empty⟩

/-- The scope that a handle names. -/
def scope? (heap : Heap) (env : Env) : Option Scope := heap.scopes[env.index]?

theorem parent_lt_of_scope? {heap : Heap} {env p : Env} {scope : Scope}
    (h : heap.scope? env = some scope) (hp : scope.parent? = some p) : p.index < env.index := by
  obtain ⟨hlt, rfl⟩ := Array.getElem?_eq_some_iff.1 h
  exact heap.parent_lt _ hlt p hp

/-! ### Making scopes -/

/-- Appends a scope whose parent, if any, is in the heap. -/
def push (heap : Heap) (scope : Scope)
    (h : ∀ p ∈ scope.parent?, p.index < heap.scopes.size) : Heap :=
  ⟨heap.scopes.push scope, by
    intro i hi p hp
    rw [Array.getElem_push] at hp
    split at hp
    · exact heap.parent_lt i ‹_› p hp
    · have := h p hp
      simp only [Array.size_push] at hi
      omega⟩

theorem scope?_push (heap : Heap) (scope : Scope)
    (h : ∀ p ∈ scope.parent?, p.index < heap.scopes.size) (env : Env) :
    (heap.push scope h).scope? env
      = if env.index = heap.scopes.size then some scope else heap.scope? env := by
  simp [push, scope?, Array.getElem?_push]

/-- Makes a scope with the given bindings inside the scope `parent?`, if that exists. -/
def alloc (heap : Heap) (parent? : Option Env) (vars : Std.TreeMap String Value) : Env × Heap :=
  let inside := parent?.filter fun p => p.index < heap.scopes.size
  (⟨heap.scopes.size⟩, heap.push ⟨inside, vars⟩ fun p hp => by
    simpa using (Option.mem_filter_iff.1 hp).2)

/-- Makes an empty scope without a parent. -/
def new (heap : Heap) : Env × Heap := heap.alloc none ∅

/-- Makes an empty scope inside the scope `env`. -/
def extend (heap : Heap) (env : Env) : Env × Heap := heap.alloc (some env) ∅

/-- Makes a scope without a parent that holds the given bindings. Of several bindings of one name
the last counts. -/
def ofList (heap : Heap) (bindings : List (String × Value)) : Env × Heap :=
  heap.alloc none (bindings.foldl (fun vars (name, value) => vars.insert name value) ∅)

/-! ### Looking up names -/

/-- The scope around the scope `env`. -/
def parent? (heap : Heap) (env : Env) : Option Env := (heap.scope? env).bind Scope.parent?

/-- The scopes from `env` to the outermost one around it. -/
def chain (heap : Heap) (env : Env) : List Env :=
  match _h : heap.scope? env with
  | none => []
  | some scope =>
    match _hp : scope.parent? with
    | none => [env]
    | some parent => env :: heap.chain parent
termination_by env.index
decreasing_by exact parent_lt_of_scope? _h _hp

/-- The value that the scope `env` itself binds `name` to. -/
def getLocal? (heap : Heap) (env : Env) (name : String) : Option Value :=
  (heap.scope? env).bind fun scope => scope.vars[name]?

/-- Whether the scope `env` itself binds `name`. -/
def isLocal (heap : Heap) (env : Env) (name : String) : Bool :=
  (heap.scope? env).any fun scope => scope.vars.contains name

/-- The innermost scope from `env` on that binds `name`. -/
def lookup? (heap : Heap) (env : Env) (name : String) : Option Env :=
  match _h : heap.scope? env with
  | none => none
  | some scope =>
    if scope.vars.contains name then some env
    else
      match _hp : scope.parent? with
      | none => none
      | some parent => heap.lookup? parent name
termination_by env.index
decreasing_by exact parent_lt_of_scope? _h _hp

/-- The value of `name` as seen from the scope `env`. -/
def get? (heap : Heap) (env : Env) (name : String) : Option Value :=
  (heap.lookup? env name).bind fun scope => heap.getLocal? scope name

/-- Looking up a name is searching the chain for the first scope that binds it. -/
theorem lookup?_eq_find? (heap : Heap) (env : Env) (name : String) :
    heap.lookup? env name = (heap.chain env).find? fun e => heap.isLocal e name := by
  fun_induction heap.lookup? env name <;> rw [chain] <;> split <;> simp_all [isLocal] <;>
    split <;> simp_all

/-! ### Binding names -/

/-- Replaces the bindings of the scope `env` itself. -/
def setVars (heap : Heap) (env : Env) (vars : Std.TreeMap String Value) : Heap :=
  ⟨heap.scopes.modify env.index fun scope => { scope with vars }, by
    intro i hi p hp
    rw [Array.getElem_modify] at hp
    exact heap.parent_lt i (by simpa using hi) p (by grind)⟩

theorem scope?_setVars (heap : Heap) (env : Env) (vars : Std.TreeMap String Value) (e : Env) :
    (heap.setVars env vars).scope? e
      = if e.index = env.index then (heap.scope? e).map ({ · with vars }) else heap.scope? e := by
  by_cases h : env.index = e.index <;> simp [setVars, scope?, Array.getElem?_modify, h, eq_comm]

/-- Binds `name` in the scope `env` itself and gives the value it was bound to there before. -/
def define (heap : Heap) (env : Env) (name : String) (value : Value) : Option Value × Heap :=
  match heap.scope? env with
  | none => (none, heap)
  | some scope => (scope.vars[name]?, heap.setVars env (scope.vars.insert name value))

/-- Changes the innermost binding of `name` that is seen from the scope `env`, or binds it there
when there is none, and gives the value it replaces. -/
def set (heap : Heap) (env : Env) (name : String) (value : Value) : Option Value × Heap :=
  heap.define ((heap.lookup? env name).getD env) name value

end Heap

end HostedLisp
