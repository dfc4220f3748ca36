import HostedLisp.Eval.World
import Std.Data.TreeMap.Lemmas

/-!
# What a binding changes

Chains of scopes share their outer parts, so a binding made in one scope is seen from every scope
that is nested in it, except where a scope in between binds the same name. Here this is said for all
scopes of a heap at once: what is seen from any of them after a binding is made is the new value
where the walk along the chain meets the changed scope before any other that binds the name, and
what was seen before everywhere else.

Binding never changes which scope is nested in which, so all chains stay as they are, and reading a
name from a scope is a search along a fixed list for the first scope that has a value for it.

## Main definitions

* `Heap.innermost?` — the first scope of a chain that binds a name, once a given one does
* `Heap.Binds` — the result and the heap after a value is bound to a name in a scope

## Main results

* `Heap.get?_eq_findSome?` — the value of a name is the first one along the chain
* `Heap.binds_define` — making a binding
* `Heap.ofList_eq_foldl_define` — making a scope from a list of bindings
* `Heap.lookup_and_binding` — the laws of looking up and binding together
-/

namespace HostedLisp

namespace Heap

/-- The first scope from `env` on that binds `name`, where `target` counts as binding it. -/
def innermost? (heap : Heap) (target : Env) (name : String) (env : Env) : Option Env :=
  (heap.chain env).find? fun e => decide (e = target) || heap.isLocal e name

/-- What is left when `value` is bound to `name` in the scope `target`: the value that was bound
there before, and a heap in which the new value is seen wherever `target` is the innermost scope
that binds the name, and otherwise what was seen before. -/
structure Binds (heap : Heap) (target : Env) (name : String) (value : Value)
    (outcome : Option Value × Heap) : Prop where
  /-- The value bound before is the one of `target` itself, not of a scope around it. -/
  previous : outcome.1 = heap.getLocal? target name
  /-- What every scope sees afterwards of every name. -/
  value {ε : Type} : ∀ env y, (outcome.2.value env y : Except (EvalError ε) Value)
    = if y = name ∧ heap.innermost? target name env = some target then .ok value
      else heap.value env y

/-! ### Reading along a chain -/

variable {heap : Heap} {env e : Env} {scope : Scope}

/-- The chain of a scope depends on nothing but which scope is nested in which. -/
theorem chain_eq (heap : Heap) (env : Env) :
    heap.chain env = match (heap.scope? env).map Scope.parent? with
      | none => []
      | some none => [env]
      | some (some p) => env :: heap.chain p := by
  rw [chain]
  split
  · next h => rw [h]; rfl
  · next scope h =>
    rw [h, Option.map_some]
    cases scope.parent? <;> rfl

/-- Two heaps whose scopes have the same parents have the same chains. -/
theorem chain_congr {heap' : Heap}
    (h : ∀ env, (heap.scope? env).map Scope.parent? = (heap'.scope? env).map Scope.parent?)
    (env : Env) : heap.chain env = heap'.chain env := by
  fun_induction heap.chain env with
  | case1 env hnone => rw [chain_eq, ← h, hnone, Option.map_none]
  | case2 env scope hsome hparent => rw [chain_eq, ← h, hsome, Option.map_some, hparent]
  | case3 env scope hsome p hparent ih =>
    rw [chain_eq heap' env, ← h, hsome, Option.map_some, hparent, ih]

/-- A chain consists of scopes of the heap. -/
theorem exists_scope_of_mem_chain (h : e ∈ heap.chain env) :
    ∃ scope, heap.scope? e = some scope := by
  fun_induction heap.chain env with
  | case1 => cases h
  | case2 env scope hscope _ =>
    obtain rfl := List.mem_singleton.1 h
    exact ⟨scope, hscope⟩
  | case3 env scope hscope p _ ih =>
    rcases List.mem_cons.1 h with rfl | hmem
    · exact ⟨scope, hscope⟩
    · exact ih hmem

theorem isLocal_eq_isSome (heap : Heap) (env : Env) (name : String) :
    heap.isLocal env name = (heap.getLocal? env name).isSome := by
  rw [isLocal, getLocal?]
  cases heap.scope? env with
  | none => rfl
  | some scope => exact Std.TreeMap.contains_eq_isSome_getElem?

/-- A scope in which a name is found has a value for it. -/
theorem exists_getLocal?_of_lookup? {found : Env} {name : String}
    (h : heap.lookup? env name = some found) : ∃ v, heap.getLocal? found name = some v := by
  rw [lookup?_eq_find?] at h
  have hlocal : heap.isLocal found name = true := by simpa using List.find?_some h
  rw [isLocal_eq_isSome] at hlocal
  exact Option.isSome_iff_exists.1 hlocal

/-- **The value of a name is the first one along the chain.** -/
theorem get?_eq_findSome? (heap : Heap) (env : Env) (name : String) :
    heap.get? env name = (heap.chain env).findSome? fun e => heap.getLocal? e name := by
  rw [get?, lookup?_eq_find?]
  simp only [isLocal_eq_isSome]
  induction heap.chain env with
  | nil => rfl
  | cons e outer ih =>
    rw [List.find?_cons, List.findSome?_cons]
    cases hlocal : heap.getLocal? e name with
    | none => exact ih
    | some _ => exact hlocal

/-- A name is unbound exactly where no scope of the chain binds it. -/
theorem value_eq_unbound_iff {ε : Type} (heap : Heap) (env : Env) (name : String) :
    (heap.value env name : Except (EvalError ε) Value) = .error (.unbound name)
      ↔ ∀ e ∈ heap.chain env, heap.isLocal e name = false := by
  have hget : heap.get? env name = none ↔ ∀ e ∈ heap.chain env, heap.isLocal e name = false := by
    rw [get?_eq_findSome?, List.findSome?_eq_none_iff]
    simp only [isLocal_eq_isSome, Option.isSome_eq_false_iff, Option.isNone_iff_eq_none]
  rw [← hget, Heap.value]
  cases heap.get? env name <;> simp

/-! ### Making a binding -/

theorem map_parent?_setVars (heap : Heap) (target : Env) (vars : Std.TreeMap String Value)
    (env : Env) :
    ((heap.setVars target vars).scope? env).map Scope.parent?
      = (heap.scope? env).map Scope.parent? := by
  rw [scope?_setVars]
  split
  · rw [Option.map_map]
    rfl
  · rfl

/-- A binding changes the parent of no scope. -/
theorem map_parent?_define (heap : Heap) (env : Env) (name : String) (value : Value) (e : Env) :
    ((heap.define env name value).2.scope? e).map Scope.parent?
      = (heap.scope? e).map Scope.parent? := by
  rw [define]
  cases heap.scope? env with
  | none => rfl
  | some scope => exact map_parent?_setVars ..

theorem chain_define (heap : Heap) (env : Env) (name : String) (value : Value) (e : Env) :
    (heap.define env name value).2.chain e = heap.chain e :=
  (chain_congr (fun e => (heap.map_parent?_define env name value e).symm) e).symm

/-- A binding changes no other name of its scope, and no other scope. -/
theorem getLocal?_define (h : heap.scope? env = some scope) (name : String) (value : Value)
    (e : Env) (y : String) :
    (heap.define env name value).2.getLocal? e y
      = if e = env ∧ y = name then some value else heap.getLocal? e y := by
  rw [define, h]
  dsimp only
  rw [getLocal?, scope?_setVars, getLocal?]
  by_cases he : e = env
  · subst he
    rw [if_pos rfl, h]
    simp [Std.TreeMap.getElem?_insert, @eq_comm _ y]
  · have hindex : e.index ≠ env.index := fun hindex => he (by cases e; cases env; simp_all)
    rw [if_neg hindex, if_neg fun hboth => he hboth.1]

theorem getLocal?_define_eq (heap : Heap) (env : Env) (name : String) (value : Value) (e : Env)
    (y : String) :
    (heap.define env name value).2.getLocal? e y
      = if e = env ∧ y = name then (heap.scope? env).map fun _ => value
        else heap.getLocal? e y := by
  cases h : heap.scope? env with
  | some scope => exact getLocal?_define h name value e y
  | none =>
    have hsame : (heap.define env name value).2 = heap := by rw [define, h]
    rw [hsame, Option.map_none]
    split
    · next hboth => rw [hboth.1, getLocal?, h, Option.bind_none]
    · rfl

/-- Along a list of scopes, one of which gets a new value, the first value is the new one if no
scope before that one has a value. -/
theorem findSome?_getLocal?_define (h : heap.scope? env = some scope) (name : String)
    (value : Value) (scopes : List Env) :
    (scopes.findSome? fun e => (heap.define env name value).2.getLocal? e name)
      = if scopes.find? (fun e => decide (e = env) || heap.isLocal e name) = some env
        then some value else scopes.findSome? fun e => heap.getLocal? e name := by
  induction scopes with
  | nil => rfl
  | cons e outer ih =>
    rw [List.findSome?_cons, List.find?_cons, List.findSome?_cons, getLocal?_define h,
      isLocal_eq_isSome, ih]
    by_cases he : e = env
    · simp [he]
    · cases heap.getLocal? e name <;> simp [he]

theorem get?_define (h : heap.scope? env = some scope) (name : String) (value : Value) (e : Env)
    (y : String) :
    (heap.define env name value).2.get? e y
      = if y = name ∧ heap.innermost? env name e = some env then some value
        else heap.get? e y := by
  rw [get?_eq_findSome?, get?_eq_findSome?, chain_define]
  by_cases hy : y = name
  · subst hy
    rw [findSome?_getLocal?_define h, innermost?]
    simp only [true_and]
  · simp only [getLocal?_define h, hy, and_false, false_and, if_false]

/-- **Making a binding.** -/
theorem binds_define (heap : Heap) (env : Env) (name : String) (value : Value) :
    heap.Binds env name value (heap.define env name value) := by
  match h : heap.scope? env with
  | none =>
    -- Without its scope a handle is in no chain, and nothing happens.
    have hnot : ∀ e, heap.innermost? env name e ≠ some env := by
      intro e hfind
      obtain ⟨scope, hscope⟩ := exists_scope_of_mem_chain (List.mem_of_find?_eq_some hfind)
      rw [h] at hscope
      cases hscope
    refine ⟨by simp [define, getLocal?, h], fun e y => ?_⟩
    rw [if_neg fun hboth => hnot e hboth.2, define, h]
  | some scope =>
    refine ⟨by simp [define, getLocal?, h], fun e y => ?_⟩
    rw [Heap.value, get?_define h]
    by_cases hseen : y = name ∧ heap.innermost? env name e = some env
    · rw [if_pos hseen, if_pos hseen]
    · rw [if_neg hseen, if_neg hseen, Heap.value]

/-! ### Scopes made with bindings -/

theorem ext_scope? {heap heap' : Heap} (h : ∀ env, heap.scope? env = heap'.scope? env) :
    heap = heap' := by
  have hscopes : heap.scopes = heap'.scopes := Array.ext_getElem? fun i => h ⟨i⟩
  cases heap
  cases heap'
  exact (mk.injEq ..).mpr hscopes

theorem scope?_alloc (heap : Heap) (parent? : Option Env) (vars : Std.TreeMap String Value) :
    (heap.alloc parent? vars).2.scope? (heap.alloc parent? vars).1
      = some ⟨parent?.filter fun p => p.index < heap.scopes.size, vars⟩ := by
  rw [alloc, scope?_push, if_pos rfl]

/-- A binding made right after its scope could as well have been among the first ones. -/
theorem define_alloc (heap : Heap) (parent? : Option Env) (vars : Std.TreeMap String Value)
    (name : String) (value : Value) :
    ((heap.alloc parent? vars).2.define (heap.alloc parent? vars).1 name value).2
      = (heap.alloc parent? (vars.insert name value)).2 := by
  rw [define, scope?_alloc]
  apply ext_scope?
  intro env
  simp only [scope?_setVars, alloc, scope?_push]
  split <;> simp

/-- **A scope made from a list of bindings** is the empty one in which they are made in order. -/
theorem ofList_eq_foldl_define (heap : Heap) (bindings : List (String × Value)) :
    heap.ofList bindings = (heap.new.1,
      bindings.foldl (fun heap' b => (heap'.define heap.new.1 b.1 b.2).2) heap.new.2) := by
  have hfold : ∀ vars : Std.TreeMap String Value,
      (heap.alloc none (bindings.foldl (fun vars b => vars.insert b.1 b.2) vars)).2
        = bindings.foldl (fun heap' b => (heap'.define heap.new.1 b.1 b.2).2)
            (heap.alloc none vars).2 := by
    induction bindings with
    | nil => exact fun vars => rfl
    | cons b bindings ih =>
      intro vars
      rw [List.foldl_cons, List.foldl_cons, ih]
      exact congrArg (bindings.foldl _) (define_alloc heap none vars b.1 b.2).symm
  exact Prod.ext rfl (hfold ∅)

/-- Of several bindings of one name the last counts. -/
theorem getLocal?_ofList (heap : Heap) (bindings : List (String × Value)) (name : String) :
    (heap.ofList bindings).2.getLocal? (heap.ofList bindings).1 name
      = bindings.reverse.lookup name := by
  have hfold : ∀ vars : Std.TreeMap String Value,
      (bindings.foldl (fun vars b => vars.insert b.1 b.2) vars)[name]?
        = (bindings.reverse.lookup name).or vars[name]? := by
    induction bindings with
    | nil => exact fun vars => rfl
    | cons b bindings ih =>
      intro vars
      rw [List.foldl_cons, ih, Std.TreeMap.getElem?_insert, List.reverse_cons, List.lookup_append,
        Option.or_assoc, List.lookup_cons, List.lookup_nil]
      by_cases hb : b.1 = name
      · simp [hb]
      · rw [beq_false_of_ne (Ne.symm hb)]
        simp [hb]
  rw [getLocal?, ofList, scope?_alloc]
  simpa using hfold ∅

/-! ### The laws together -/

/-- **The laws of looking up and binding names**, for all scopes of a heap. A name is looked up
along the chain and has the value that the scope found there binds it to. Making a binding changes
the scope it is made in, changing one the scope that the name is found in, or else the scope it is
changed from; both are seen wherever that scope is the innermost one with the name, and nowhere
else. A scope made from a list of bindings is one in which they are made in order, and the last one
of a name counts. -/
theorem lookup_and_binding {ε : Type} (heap : Heap) (env : Env) (name : String) (value : Value) :
    heap.lookup? env name = (heap.chain env).find? (heap.isLocal · name) ∧
      ((∃ found v, heap.lookup? env name = some found ∧ heap.getLocal? found name = some v ∧
          (heap.value env name : Except (EvalError ε) Value) = .ok v) ∨
        heap.lookup? env name = none ∧
          (heap.value env name : Except (EvalError ε) Value) = .error (.unbound name)) ∧
      ((heap.value env name : Except (EvalError ε) Value) = .error (.unbound name)
        ↔ ∀ e ∈ heap.chain env, heap.isLocal e name = false) ∧
      heap.Binds env name value (heap.define env name value) ∧
      heap.Binds ((heap.lookup? env name).getD env) name value (heap.set env name value) ∧
      ∀ bindings,
        heap.ofList bindings = (heap.new.1,
          bindings.foldl (fun heap' b => (heap'.define heap.new.1 b.1 b.2).2) heap.new.2) ∧
        (heap.ofList bindings).2.getLocal? (heap.ofList bindings).1 name
          = bindings.reverse.lookup name := by
  refine ⟨lookup?_eq_find? heap env name, ?_, value_eq_unbound_iff heap env name,
    binds_define heap env name value, binds_define heap _ name value, fun bindings =>
    ⟨ofList_eq_foldl_define heap bindings, getLocal?_ofList heap bindings name⟩⟩
  cases hfound : heap.lookup? env name with
  | none => exact .inr ⟨rfl, by rw [Heap.value, get?, hfound, Option.bind_none]⟩
  | some found =>
    obtain ⟨v, hv⟩ := exists_getLocal?_of_lookup? hfound
    exact .inl ⟨found, v, rfl, hv, by rw [Heap.value, get?, hfound, Option.bind_some, hv]⟩

end Heap

end HostedLisp
