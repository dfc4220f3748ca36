import Mathlib
import HostedLisp.Proofs.Library.Operation
import HostedLisp.Proofs.Scope.Binding

/-!
# Scopes only grow

An operation on the scopes makes a new one at the end, or it binds a name in one that is there. So
the scopes that are there stay, keep their parents, and keep all names that they bind, and the same
holds of operations in any number. `Heap.Grows` is this relation between two heaps; what is seen of
a chain of scopes follows from it.

The order in which scopes are made is what makes the loops along the parents end. On plain scopes
this order is nowhere written down. It is there all the same, since a scope is made inside one that
has been made before, and so plain scopes that are made by operations are those of a heap.

## Main definitions

* `Heap.Grows` — the scopes stay, and so do their parents and the names that they bind
* `Heap.Describes` — what is known of plain scopes when they are those of a heap
* `Heap.Retains` — what stays of a scope

## Main results

* `Heap.grows_perform`, `Heap.Leads.grows` — an operation, and any number of them
* `Heap.Grows.chain`, `Heap.Grows.isLocal`, `Heap.Grows.value` — chains and bindings stay
* `Heap.get?_alloc` — what a new scope sees
* `Scopes.walk_iff`, `Scopes.search_iff`, `Scopes.performs_iff` — the loops along the parents end,
  and plain operations are those on heaps
* `Scopes.runs_eq_performAll` — plain scopes that are made by operations are those of a heap
* `scopes_only_grow` — all of this, and that evaluations and programs change scopes in no other way
-/

namespace HostedLisp

namespace Heap

variable {heap heap' heap'' : Heap} {env : Env} {name : String}

/-! ### Growth -/

/-- All scopes of `heap` are there in `heap'` with the same parents, and bind the same names at
least. -/
def Grows (heap heap' : Heap) : Prop :=
  ∀ env scope, heap.scope? env = some scope →
    ∃ scope', heap'.scope? env = some scope' ∧ scope'.parent? = scope.parent? ∧
      ∀ name, scope.vars.contains name = true → scope'.vars.contains name = true

theorem Grows.refl (heap : Heap) : heap.Grows heap :=
  fun _ scope h => ⟨scope, h, rfl, fun _ hname => hname⟩

theorem Grows.trans (h₁ : heap.Grows heap') (h₂ : heap'.Grows heap'') : heap.Grows heap'' := by
  intro env scope h
  obtain ⟨scope', h', hparent, hnames⟩ := h₁ env scope h
  obtain ⟨scope'', h'', hparent', hnames'⟩ := h₂ env scope' h'
  exact ⟨scope'', h'', hparent'.trans hparent, fun name hname => hnames' name (hnames name hname)⟩

/-- A scope that is made does not take the place of another one. -/
theorem grows_alloc (heap : Heap) (parent? : Option Env) (vars : Std.TreeMap String Value) :
    heap.Grows (heap.alloc parent? vars).2 := by
  intro env scope h
  refine ⟨scope, ?_, rfl, fun _ hname => hname⟩
  have hlt : env.index < heap.scopes.size := (Array.getElem?_eq_some_iff.1 h).1
  rw [alloc, scope?_push, if_neg (Nat.ne_of_lt hlt), h]

/-- A binding takes no name away. -/
theorem grows_define (heap : Heap) (env : Env) (name : String) (value : Value) :
    heap.Grows (heap.define env name value).2 := by
  rw [define]
  cases hscope : heap.scope? env with
  | none => exact .refl heap
  | some changed =>
    intro e scope h
    dsimp only
    rw [scope?_setVars, h]
    by_cases he : e.index = env.index
    · rw [if_pos he]
      obtain rfl : e = env := by cases e; cases env; exact congrArg Env.mk he
      obtain rfl : changed = scope := Option.some.inj (hscope.symm.trans h)
      refine ⟨_, rfl, rfl, fun y hy => ?_⟩
      rw [Std.TreeMap.contains_insert, hy, Bool.or_true]
    · rw [if_neg he]
      exact ⟨scope, rfl, rfl, fun _ hname => hname⟩

/-- **An operation lets the scopes grow.** -/
theorem grows_perform (heap : Heap) (op : Operation) : heap.Grows (heap.perform op) := by
  cases op with
  | new | ofList _ | extend _ => exact heap.grows_alloc _ _
  | clone _ => exact .refl heap
  | define _ _ _ | set _ _ _ => exact heap.grows_define _ _ _

theorem grows_performAll (heap : Heap) (ops : List Operation) :
    heap.Grows (heap.performAll ops) := by
  induction ops generalizing heap with
  | nil => exact .refl heap
  | cons op ops ih => exact (heap.grows_perform op).trans (ih _)

/-- **Any number of operations lets the scopes grow.** -/
theorem Leads.grows (h : heap.Leads heap') : heap.Grows heap' := by
  obtain ⟨ops, rfl⟩ := h
  exact heap.grows_performAll ops

/-! ### What is seen of scopes that have grown -/

/-- The scope around a scope of the heap is in the heap. -/
theorem exists_scope_of_parent {scope : Scope} {p : Env} (h : heap.scope? env = some scope)
    (hp : scope.parent? = some p) : ∃ around, heap.scope? p = some around := by
  obtain ⟨hlt, -⟩ := Array.getElem?_eq_some_iff.1 h
  exact ⟨_, Array.getElem?_eq_getElem (Nat.lt_trans (parent_lt_of_scope? h hp) hlt)⟩

theorem Grows.parent? (h : heap.Grows heap') {scope : Scope}
    (hscope : heap.scope? env = some scope) : heap'.parent? env = heap.parent? env := by
  obtain ⟨scope', hscope', hparent, -⟩ := h env scope hscope
  rw [Heap.parent?, Heap.parent?, hscope, hscope']
  exact hparent

/-- **The chain of a scope stays.** -/
theorem Grows.chain (h : heap.Grows heap') {scope : Scope}
    (hscope : heap.scope? env = some scope) : heap'.chain env = heap.chain env := by
  fun_induction heap.chain env generalizing scope with
  | case1 env hnone =>
    rw [hnone] at hscope
    cases hscope
  | case2 env scope₁ hsome hparent =>
    obtain ⟨scope', hscope', hsame, -⟩ := h env scope₁ hsome
    rw [chain_eq, hscope', Option.map_some, hsame, hparent]
  | case3 env scope₁ hsome p hparent ih =>
    obtain ⟨scope', hscope', hsame, -⟩ := h env scope₁ hsome
    obtain ⟨around, haround⟩ := exists_scope_of_parent hsome hparent
    rw [chain_eq, hscope', Option.map_some, hsame, hparent, ← ih haround]

/-- **A name that a scope binds stays bound there.** -/
theorem Grows.isLocal (h : heap.Grows heap') (hlocal : heap.isLocal env name = true) :
    heap'.isLocal env name = true := by
  rw [Heap.isLocal, Option.any_eq_true] at hlocal ⊢
  obtain ⟨scope, hscope, hname⟩ := hlocal
  obtain ⟨scope', hscope', -, hnames⟩ := h env scope hscope
  exact ⟨scope', hscope', hnames name hname⟩

/-- A name has a value where some scope of the chain binds it. -/
theorem exists_value_iff {ε : Type} (heap : Heap) (env : Env) (name : String) :
    (∃ v, (heap.value env name : Except (EvalError ε) Value) = .ok v)
      ↔ ∃ e ∈ heap.chain env, heap.isLocal e name = true := by
  have hget : (heap.get? env name).isSome ↔ ∃ e ∈ heap.chain env, heap.isLocal e name = true := by
    rw [get?_eq_findSome?, List.findSome?_isSome_iff]
    simp only [isLocal_eq_isSome]
  rw [← hget, Heap.value]
  cases heap.get? env name <;> simp

/-- **A name that has a value keeps having one**, since the scope that binds it stays in the chain
and keeps the binding. -/
theorem Grows.value {ε : Type} (h : heap.Grows heap')
    (hvalue : ∃ v, (heap.value env name : Except (EvalError ε) Value) = .ok v) :
    ∃ v, (heap'.value env name : Except (EvalError ε) Value) = .ok v := by
  rw [exists_value_iff] at hvalue ⊢
  obtain ⟨e, he, hlocal⟩ := hvalue
  cases hscope : heap.scope? env with
  | none =>
    rw [chain_eq, hscope] at he
    cases he
  | some scope => exact ⟨e, h.chain hscope ▸ he, h.isLocal hlocal⟩

theorem not_lt_of_scope?_eq_none (h : heap.scope? env = none) : ¬env.index < heap.scopes.size :=
  Nat.not_lt.2 (Array.getElem?_eq_none_iff.1 h)

/-! ### What a new scope sees -/

/-- A scope that is made changes no binding of another one. -/
theorem getLocal?_alloc {scope : Scope} (h : heap.scope? env = some scope) (parent? : Option Env)
    (vars : Std.TreeMap String Value) (name : String) :
    (heap.alloc parent? vars).2.getLocal? env name = heap.getLocal? env name := by
  have hlt : env.index < heap.scopes.size := (Array.getElem?_eq_some_iff.1 h).1
  rw [getLocal?, getLocal?, alloc, scope?_push, if_neg (Nat.ne_of_lt hlt)]

theorem findSome?_getLocal?_alloc {es : List Env}
    (h : ∀ e ∈ es, ∃ scope, heap.scope? e = some scope) (parent? : Option Env)
    (vars : Std.TreeMap String Value) (name : String) :
    (es.findSome? fun e => (heap.alloc parent? vars).2.getLocal? e name)
      = es.findSome? fun e => heap.getLocal? e name := by
  induction es with
  | nil => rfl
  | cons e es ih =>
    obtain ⟨scope, hscope⟩ := h e List.mem_cons_self
    rw [List.findSome?_cons, List.findSome?_cons, getLocal?_alloc hscope,
      ih fun e he => h e (List.mem_cons_of_mem _ he)]

/-- **A new scope sees its own bindings, and otherwise what the scope around it sees.** -/
theorem get?_alloc (heap : Heap) (parent? : Option Env) (vars : Std.TreeMap String Value)
    (name : String) :
    (heap.alloc parent? vars).2.get? (heap.alloc parent? vars).1 name
      = vars[name]?.or (parent?.bind fun p => heap.get? p name) := by
  have hlocal : (heap.alloc parent? vars).2.getLocal? (heap.alloc parent? vars).1 name
      = vars[name]? := by
    rw [getLocal?, scope?_alloc, Option.bind_some]
  rw [get?_eq_findSome?, chain_eq, scope?_alloc, Option.map_some]
  cases parent? with
  | none => simp [hlocal]
  | some p =>
    rw [Option.bind_some, get?_eq_findSome?]
    cases hscope : heap.scope? p with
    | none =>
      -- The new scope has no parent then, and the chain of `p` is empty.
      have hfilter : (some p).filter (fun p => p.index < heap.scopes.size) = none := by
        simpa using not_lt_of_scope?_eq_none hscope
      have hchain : heap.chain p = [] := by rw [chain_eq, hscope, Option.map_none]
      rw [hfilter, hchain]
      simp [hlocal]
    | some scope =>
      have hfilter : (some p).filter (fun p => p.index < heap.scopes.size) = some p := by
        simpa using (Array.getElem?_eq_some_iff.1 hscope).1
      rw [hfilter]
      dsimp only
      rw [List.findSome?_cons, hlocal, (heap.grows_alloc (some p) vars).chain hscope,
        findSome?_getLocal?_alloc fun e he => exists_scope_of_mem_chain he]
      cases vars[name]? <;> rfl

theorem get?_ofList (heap : Heap) (bindings : List (String × Value)) (name : String) :
    (heap.ofList bindings).2.get? (heap.ofList bindings).1 name
      = bindings.reverse.lookup name := by
  rw [← getLocal?_ofList, get?_eq_findSome?, ofList, chain_eq, scope?_alloc]
  simp

/-- A scope inside another one, in which one name is bound, sees that name as it is bound there and
every other name as from outside. -/
theorem get?_extend_define (heap : Heap) (env : Env) (x : String) (v : Value) (name : String) :
    ((heap.extend env).2.define (heap.extend env).1 x v).2.get? (heap.extend env).1 name
      = if name = x then some v else heap.get? env name := by
  rw [extend, define_alloc]
  refine (heap.get?_alloc (some env) _ name).trans ?_
  rw [Std.TreeMap.getElem?_insert]
  by_cases h : name = x
  · simp [h]
  · simp [h, Ne.symm h]

/-! ### Searching a chain -/

/-- Looking up a name goes from scope to scope. -/
theorem lookup?_eq (heap : Heap) (env : Env) (name : String) :
    heap.lookup? env name = match heap.scope? env with
      | none => none
      | some scope =>
        if scope.vars.contains name then some env
        else scope.parent?.bind fun p => heap.lookup? p name := by
  rw [Heap.lookup?]
  split
  · next h => rw [h]
  · next scope h =>
    rw [h]
    dsimp only
    split
    · rfl
    · split <;> next hp => rw [hp]; rfl

/-- A scope in which a name is found is one of the heap. -/
theorem lt_of_lookup? {found : Env} (h : heap.lookup? env name = some found) :
    found.index < heap.scopes.size := by
  rw [lookup?_eq_find?] at h
  obtain ⟨scope, hscope⟩ := exists_scope_of_mem_chain (List.mem_of_find?_eq_some h)
  exact (Array.getElem?_eq_some_iff.1 hscope).1

/-! ### Chains descend -/

theorem index_le_of_mem_chain {e : Env} (h : e ∈ heap.chain env) : e.index ≤ env.index := by
  fun_induction heap.chain env with
  | case1 => cases h
  | case2 => exact Nat.le_of_eq (congrArg Env.index (List.mem_singleton.1 h))
  | case3 env scope hscope p hp ih =>
    rcases List.mem_cons.1 h with rfl | hmem
    · exact Nat.le_refl _
    · exact Nat.le_trans (ih hmem) (Nat.le_of_lt (parent_lt_of_scope? hscope hp))

/-- Every further scope of a chain was made before the ones that it was reached from. -/
theorem pairwise_chain (heap : Heap) (env : Env) :
    (heap.chain env).Pairwise fun e outer => outer.index < e.index := by
  fun_induction heap.chain env with
  | case1 => exact .nil
  | case2 => exact List.pairwise_singleton ..
  | case3 env scope hscope p hp ih =>
    refine List.pairwise_cons.2 ⟨fun e he => ?_, ih⟩
    exact Nat.lt_of_le_of_lt (index_le_of_mem_chain he) (parent_lt_of_scope? hscope hp)

end Heap

/-! ### The same on plain scopes -/

namespace Scopes

open Heap

variable {heap : Heap} {env : Env} {name : String}

/-- **The walk along the parents ends** and passes through the chain. -/
theorem walk_iff (h : env.index < heap.scopes.size) {es : List Env} :
    Walk heap.scopes env es ↔ es = heap.chain env := by
  constructor
  · intro walk
    induction walk with
    | last at_env outermost =>
      rw [chain_eq, Heap.scope?, at_env, Option.map_some, outermost]
    | next at_env inside _ ih =>
      obtain ⟨around, haround⟩ := exists_scope_of_parent at_env inside
      rw [chain_eq, Heap.scope?, at_env, Option.map_some, inside,
        ih (Array.getElem?_eq_some_iff.1 haround).1]
  · rintro rfl
    fun_induction heap.chain env with
    | case1 env hnone => exact absurd h (not_lt_of_scope?_eq_none hnone)
    | case2 env scope hscope hparent => exact .last hscope hparent
    | case3 env scope hscope p hparent ih =>
      exact .next hscope hparent (ih (Nat.lt_trans (parent_lt_of_scope? hscope hparent) h))

/-- **The search for a name ends** where it does on the heap. -/
theorem search_iff (h : env.index < heap.scopes.size) {found? : Option Env} :
    Search heap.scopes name env found? ↔ found? = heap.lookup? env name := by
  constructor
  · intro search
    induction search with
    | found at_env bound =>
      rw [lookup?_eq, Heap.scope?, at_env]
      exact (if_pos bound).symm
    | missing at_env unbound outermost =>
      rw [lookup?_eq, Heap.scope?, at_env]
      simp [unbound, outermost]
    | next at_env unbound inside _ ih =>
      obtain ⟨around, haround⟩ := exists_scope_of_parent at_env inside
      rw [lookup?_eq, Heap.scope?, at_env, ih (Array.getElem?_eq_some_iff.1 haround).1]
      simp [unbound, inside]
  · rintro rfl
    fun_induction heap.lookup? env name with
    | case1 env hnone => exact absurd h (not_lt_of_scope?_eq_none hnone)
    | case2 env scope hscope hbound => exact .found hscope hbound
    | case3 env scope hscope hunbound hparent =>
      exact .missing hscope (Bool.eq_false_iff.2 hunbound) hparent
    | case4 env scope hscope hunbound p hparent ih =>
      exact .next hscope (Bool.eq_false_iff.2 hunbound) hparent
        (ih (Nat.lt_trans (parent_lt_of_scope? hscope hparent) h))

theorem bind_eq (h : env.index < heap.scopes.size) (name : String) (value : Value) :
    bind heap.scopes env name value = (heap.define env name value).2.scopes := by
  have hscope : heap.scope? env = some heap.scopes[env.index] := Array.getElem?_eq_getElem h
  rw [Heap.define, hscope]
  apply Array.ext_getElem?
  intro i
  simp only [bind, Heap.setVars, Array.getElem?_modify]
  by_cases hi : env.index = i
  · subst hi
    rw [if_pos rfl, if_pos rfl, Array.getElem?_eq_getElem h]
    rfl
  · rw [if_neg hi, if_neg hi]

/-- **An operation on plain scopes comes to an end**, and to the same as on the heap. -/
theorem performs_iff {op : Operation} (h : ∀ env ∈ op.handle?, env.index < heap.scopes.size)
    {scopes : Array Scope} :
    Performs heap.scopes op scopes ↔ scopes = (heap.perform op).scopes := by
  cases op with
  | new | ofList _ | clone _ =>
    refine ⟨fun performs => ?_, ?_⟩
    · cases performs
      rfl
    · rintro rfl
      constructor
  | extend env =>
    have hperform : (heap.perform (.extend env)).scopes = heap.scopes.push ⟨some env, ∅⟩ := by
      simp [Heap.perform, Heap.extend, Heap.alloc, Heap.push, Option.filter, h env rfl]
    rw [hperform]
    refine ⟨fun performs => ?_, ?_⟩
    · cases performs
      rfl
    · rintro rfl
      constructor
  | define env name value =>
    have hperform := bind_eq (h env rfl) name value
    refine ⟨fun performs => ?_, ?_⟩
    · cases performs
      exact hperform
    · rintro rfl
      rw [Heap.perform, ← hperform]
      constructor
  | set env name value =>
    have hfound : ((heap.lookup? env name).getD env).index < heap.scopes.size := by
      cases hlookup : heap.lookup? env name with
      | none => exact h env rfl
      | some found => exact lt_of_lookup? hlookup
    have hperform := bind_eq hfound name value
    refine ⟨fun performs => ?_, ?_⟩
    · cases performs with
      | set _ search =>
        rw [(search_iff (h env rfl)).1 search]
        exact hperform
    · rintro rfl
      rw [Heap.perform, Heap.set, ← hperform]
      exact .set value ((search_iff (h env rfl)).2 rfl)

/-- **Plain scopes that are made by operations are those of a heap.** -/
theorem runs_eq_performAll {ops : List Operation} {scopes : Array Scope}
    (h : Runs heap.scopes ops scopes) : scopes = (heap.performAll ops).scopes := by
  induction ops generalizing heap with
  | nil =>
    cases h
    rfl
  | cons op ops ih =>
    cases h with
    | cons made first others =>
      rw [performs_iff made] at first
      subst first
      exact ih others

end Scopes

/-! ### All together -/

/-- What is known of the plain scopes `scopes`, which have no order of their own, when they are
those of `heap`. -/
structure Heap.Describes (heap : Heap) (scopes : Array Scope) : Prop where
  /-- The scopes are those of the heap. -/
  same : scopes = heap.scopes
  /-- The scope around a scope was made before it. -/
  parent_lt : ∀ (env : Env) (scope : Scope), scopes[env.index]? = some scope →
    ∀ p ∈ scope.parent?, p.index < env.index
  /-- From every handle the walk along the parents ends, behind the scopes of a chain. -/
  walk : ∀ env : Env, env.index < scopes.size → ∀ es,
    Scopes.Walk scopes env es ↔ es = heap.chain env
  /-- No chain comes to the same scope twice, since it goes on to earlier scopes only. -/
  descending : ∀ env, (heap.chain env).Pairwise fun e outer => outer.index < e.index
  /-- From every handle the search for any name ends. -/
  search : ∀ env : Env, env.index < scopes.size → ∀ name found?,
    Scopes.Search scopes name env found? ↔ found? = heap.lookup? env name
  /-- Every operation through handles that there are ends. -/
  performs : ∀ op : Operation, (∀ env ∈ op.handle?, env.index < scopes.size) → ∀ scopes',
    Scopes.Performs scopes op scopes' ↔ scopes' = (heap.perform op).scopes

/-- What stays of the scope `env` of `heap` in `heap'`. -/
structure Heap.Retains (heap heap' : Heap) (env : Env) : Prop where
  /-- The scope itself. -/
  scope : env.index < heap.scopes.size → env.index < heap'.scopes.size
  /-- The scope around it. -/
  parent? : env.index < heap.scopes.size → heap'.parent? env = heap.parent? env
  /-- All scopes around it. -/
  chain : env.index < heap.scopes.size → heap'.chain env = heap.chain env
  /-- Which names it binds itself; others may be added. -/
  isLocal : ∀ name, heap.isLocal env name = true → heap'.isLocal env name = true
  /-- Which names have a value as seen from it; the value may be another one. -/
  value {ε : Type} : ∀ name, (∃ v, (heap.value env name : Except (EvalError ε) Value) = .ok v) →
    ∃ v, (heap'.value env name : Except (EvalError ε) Value) = .ok v

/-- Plain scopes that are made by operations are described by a heap. -/
theorem Scopes.describes_of_runs {ops : List Operation} {scopes : Array Scope}
    (h : Scopes.Runs #[] ops scopes) : (Heap.empty.performAll ops).Describes scopes := by
  obtain rfl : scopes = (Heap.empty.performAll ops).scopes := Scopes.runs_eq_performAll h
  exact {
    same := rfl
    parent_lt := fun _ _ hscope _ hp => Heap.parent_lt_of_scope? hscope hp
    walk := fun _ henv _ => Scopes.walk_iff henv
    descending := Heap.pairwise_chain _
    search := fun _ henv _ _ => Scopes.search_iff henv
    performs := fun _ hop _ => Scopes.performs_iff hop }

theorem Heap.Grows.retains {heap heap' : Heap} (h : heap.Grows heap') (env : Env) :
    heap.Retains heap' env := by
  have hscope (henv : env.index < heap.scopes.size) :
      heap.scope? env = some heap.scopes[env.index] := Array.getElem?_eq_getElem henv
  refine ⟨fun henv => ?_, fun henv => h.parent? (hscope henv), fun henv => h.chain (hscope henv),
    fun _ => h.isLocal, fun _ => h.value⟩
  obtain ⟨scope', hscope', -⟩ := h env _ (hscope henv)
  exact (Array.getElem?_eq_some_iff.1 hscope').1

/-- **Scopes only grow.** Operations on plain scopes, in any number and through any handles, come to
an end one after the other and lead to scopes whose parents were made before them, so that all loops
along the parents end. No operation changes the parent of a scope or takes a binding away, neither
from the scope nor from those that see it. And where procedures do nothing but operations to the
scopes, evaluations and programs do nothing else either. -/
theorem scopes_only_grow {σ ε : Type} :
    (∀ ops scopes, Scopes.Runs #[] ops scopes →
      (Heap.empty.performAll ops).Describes scopes) ∧
      (∀ heap heap' : Heap, heap.Leads heap' → ∀ env, heap.Retains heap' env) ∧
      ∀ host : Host σ ε, host.Operates → ∀ env (world : World σ),
        (∀ e, world.heap.Leads (eval host env e world).world.heap) ∧
          ∀ source, world.heap.Leads (runProgram host env source world).world.heap := by
  refine ⟨fun ops scopes hruns => Scopes.describes_of_runs hruns,
    fun heap heap' hleads env => hleads.grows.retains env,
    fun host operates env world => ⟨fun e => ?_, fun source => ?_⟩⟩
  · exact operates.keeps.eval env e world
  · exact operates.keeps.runProgram env source world

/-- A scope that binds `f`, and one inside it through which `f` is bound anew. -/
def bindingAround : List Operation :=
  [.ofList [("f", .bool true)], .extend ⟨0⟩, .set ⟨1⟩ "f" (.integer 1)]

/-- The operations lead to scopes that a heap describes, and running a program in the inner one
leaves `f` bound in the outer one. -/
theorem scopes_only_grow_bindingAround :
    let heap := Heap.empty.performAll bindingAround
    let heap' := (runProgram (Library.host 1) ⟨1⟩ "f" ⟨heap, .start⟩).world.heap
    (∃ scopes, Scopes.Runs #[] bindingAround scopes ∧ heap.Describes scopes) ∧
      heap.Leads heap' ∧ heap.isLocal ⟨0⟩ "f" = true ∧ heap'.isLocal ⟨0⟩ "f" = true := by
  intro heap heap'
  obtain ⟨scopes, hscopes⟩ : ∃ scopes, Scopes.Runs #[] bindingAround scopes :=
    ⟨_, .cons (by simp [Operation.handle?]) (.ofList _)
      (.cons (by simp [Operation.handle?]) (.extend _)
        (.cons (by simp [Operation.handle?]) (.set _ (.next rfl rfl rfl (.found rfl rfl))) .nil))⟩
  obtain ⟨hdescribes, hretains, hevaluates⟩ := @scopes_only_grow Library.Data Library.Error
  have hleads : heap.Leads heap' :=
    (hevaluates (Library.host 1) (Library.operates_host 1) ⟨1⟩ ⟨heap, .start⟩).2 "f"
  have hlocal : (Heap.empty.performAll bindingAround).isLocal ⟨0⟩ "f" = true := by cbv
  exact ⟨⟨scopes, hscopes, hdescribes _ _ hscopes⟩, hleads, hlocal,
    (hretains heap heap' hleads ⟨0⟩).isLocal "f" hlocal⟩

end HostedLisp
