import HostedLisp.Scope.Heap

/-!
# Operations on scopes

Scopes are made, shared and bound names in, and nothing else is ever done to them. A host does so
directly or through the procedures that programs call, in any order and through any of the handles
that it was given.

On a heap every operation is a function, which is only possible because a heap carries the order of
its scopes. Here the operations are said a second time on scopes of which nothing is known: a parent
may be any scope, the scope itself included, and looking up a name is a loop from scope to scope
that need not end. Such a loop is a relation, which holds of those results alone that it arrives at.

## Main definitions

* `Operation`, `Heap.perform`, `Heap.performAll` — the operations on a heap; many of them in order
* `Heap.Leads` — a heap turns into another one by operations
* `Scopes.Walk`, `Scopes.Search` — the loops along the parents of a scope
* `Scopes.Performs`, `Scopes.Runs` — the operations on plain scopes; many of them in order
-/

namespace HostedLisp

/-- What can be done to scopes. -/
inductive Operation where
  /-- Makes an empty scope without a parent. -/
  | new
  /-- Makes a scope without a parent that holds some bindings. -/
  | ofList (bindings : List (String × Value))
  /-- Makes an empty scope inside another one. -/
  | extend (env : Env)
  /-- Makes a further handle to a scope. -/
  | clone (env : Env)
  /-- Binds a name in a scope itself. -/
  | define (env : Env) (name : String) (value : Value)
  /-- Changes the innermost binding of a name, or binds it where it is changed from. -/
  | set (env : Env) (name : String) (value : Value)

/-- The handle that an operation is done through. -/
def Operation.handle? : Operation → Option Env
  | .new | .ofList _ => none
  | .extend env | .clone env | .define env _ _ | .set env _ _ => some env

/-! ### On a heap -/

namespace Heap

/-- The heap behind an operation. -/
def perform (heap : Heap) : Operation → Heap
  | .new => heap.new.2
  | .ofList bindings => (heap.ofList bindings).2
  | .extend env => (heap.extend env).2
  | .clone _ => heap
  | .define env name value => (heap.define env name value).2
  | .set env name value => (heap.set env name value).2

/-- The heap behind some operations, one after the other. -/
def performAll (heap : Heap) (ops : List Operation) : Heap := ops.foldl perform heap

/-- Some operations turn `heap` into `heap'`. -/
def Leads (heap heap' : Heap) : Prop := ∃ ops, heap.performAll ops = heap'

theorem Leads.refl (heap : Heap) : heap.Leads heap := ⟨[], rfl⟩

theorem Leads.trans {heap heap' heap'' : Heap} (h₁ : heap.Leads heap') (h₂ : heap'.Leads heap'') :
    heap.Leads heap'' := by
  obtain ⟨first, rfl⟩ := h₁
  obtain ⟨others, rfl⟩ := h₂
  exact ⟨first ++ others, List.foldl_append⟩

theorem leads_perform (heap : Heap) (op : Operation) : heap.Leads (heap.perform op) := ⟨[op], rfl⟩

end Heap

/-! ### On plain scopes -/

namespace Scopes

/-- Going from a scope to its parent until there is none passes through some scopes. -/
inductive Walk (scopes : Array Scope) : Env → List Env → Prop where
  /-- The outermost scope has no parent. -/
  | last {env : Env} {scope : Scope} (at_env : scopes[env.index]? = some scope)
      (outermost : scope.parent? = none) : Walk scopes env [env]
  /-- From any other scope the walk goes on at the parent. -/
  | next {env parent : Env} {scope : Scope} {outer : List Env}
      (at_env : scopes[env.index]? = some scope) (inside : scope.parent? = some parent)
      (others : Walk scopes parent outer) : Walk scopes env (env :: outer)

/-- Going from a scope to its parent until one binds `name` arrives at that one, or at none. -/
inductive Search (scopes : Array Scope) (name : String) : Env → Option Env → Prop where
  /-- The scope binds the name. -/
  | found {env : Env} {scope : Scope} (at_env : scopes[env.index]? = some scope)
      (bound : scope.vars.contains name = true) : Search scopes name env (some env)
  /-- The outermost scope does not bind the name. -/
  | missing {env : Env} {scope : Scope} (at_env : scopes[env.index]? = some scope)
      (unbound : scope.vars.contains name = false) (outermost : scope.parent? = none) :
      Search scopes name env none
  /-- A scope that does not bind the name hands the search on to its parent. -/
  | next {env parent : Env} {scope : Scope} {found? : Option Env}
      (at_env : scopes[env.index]? = some scope) (unbound : scope.vars.contains name = false)
      (inside : scope.parent? = some parent) (others : Search scopes name parent found?) :
      Search scopes name env found?

/-- Binds a name in a scope itself. -/
def bind (scopes : Array Scope) (env : Env) (name : String) (value : Value) : Array Scope :=
  scopes.modify env.index fun scope => { scope with vars := scope.vars.insert name value }

/-- What an operation makes of the scopes. -/
inductive Performs (scopes : Array Scope) : Operation → Array Scope → Prop where
  /-- A new scope is the last one. -/
  | new : Performs scopes .new (scopes.push ⟨none, ∅⟩)
  /-- A new scope with bindings is the last one. -/
  | ofList (bindings : List (String × Value)) :
      Performs scopes (.ofList bindings)
        (scopes.push ⟨none, bindings.foldl (fun vars (name, value) => vars.insert name value) ∅⟩)
  /-- A new scope inside another one is the last one. -/
  | extend (env : Env) : Performs scopes (.extend env) (scopes.push ⟨some env, ∅⟩)
  /-- A further handle changes no scope. -/
  | clone (env : Env) : Performs scopes (.clone env) scopes
  /-- The scope itself is changed. -/
  | define (env : Env) (name : String) (value : Value) :
      Performs scopes (.define env name value) (bind scopes env name value)
  /-- The scope that the search arrives at is changed, or else the one it starts from. -/
  | set {env : Env} {name : String} {found? : Option Env} (value : Value)
      (search : Search scopes name env found?) :
      Performs scopes (.set env name value) (bind scopes (found?.getD env) name value)

/-- What some operations make of the scopes, one after the other. Handles to a scope are had only
once it has been made. -/
inductive Runs : Array Scope → List Operation → Array Scope → Prop where
  /-- Without any operations the scopes stay as they are. -/
  | nil {scopes : Array Scope} : Runs scopes [] scopes
  /-- An operation and then the others. -/
  | cons {scopes scopes₁ scopes₂ : Array Scope} {op : Operation} {ops : List Operation}
      (made : ∀ env ∈ op.handle?, env.index < scopes.size) (first : Performs scopes op scopes₁)
      (others : Runs scopes₁ ops scopes₂) : Runs scopes (op :: ops) scopes₂

end Scopes

end HostedLisp
