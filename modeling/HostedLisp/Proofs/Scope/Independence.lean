import Mathlib
import HostedLisp.Proofs.Scope.Binding
import HostedLisp.Scope.Access
import HostedLisp.Scope.Operation

/-!
# Uses of different names are independent

Scopes are shared, and where a name is bound decides where a later change of it will be made. But
all of this concerns that one name. A use of a name depends on nothing but how the scopes are nested
in each other and where this name is bound, and it changes no more than one binding of it. So two
heaps that agree on some names still do when these are used in both, in the same way, and also when
another name is used in one of them.

From this follows what comes of two sequences of uses that have no name in common. Whichever way
they are interleaved, each sequence finds the bindings of its own names as if it were alone, and so
it is answered as if it were alone, and leaves these bindings as it would have left them.

## Main results

* `Heap.AgreesOn.access`, `Heap.agreesOn_access_of_not` — a use of a name in two heaps that agree on
  it, and what is left alone by a use of another name
* `Interleaves.accessAll` — an interleaving in a heap that agrees with two others
* `accesses_independent` — every interleaving has the same answers and leaves the same bindings
-/

namespace HostedLisp

namespace Heap

namespace AgreesOn

variable {p : String → Prop} {heap heap' heap'' : Heap} {name : String}

theorem refl (p : String → Prop) (heap : Heap) : heap.AgreesOn p heap :=
  ⟨fun _ => rfl, fun _ _ _ => rfl⟩

theorem symm (h : heap.AgreesOn p heap') : heap'.AgreesOn p heap :=
  ⟨fun env => (h.parent? env).symm, fun env name hname => (h.getLocal? env name hname).symm⟩

theorem trans (h : heap.AgreesOn p heap') (h' : heap'.AgreesOn p heap'') :
    heap.AgreesOn p heap'' :=
  ⟨fun env => (h.parent? env).trans (h'.parent? env),
    fun env name hname => (h.getLocal? env name hname).trans (h'.getLocal? env name hname)⟩

/-- Heaps that agree on some names and on all others agree on all. -/
theorem all (h : heap.AgreesOn p heap') (h' : heap.AgreesOn (¬p ·) heap') :
    heap.AgreesOn (fun _ => True) heap' :=
  ⟨h.parent?, fun env name _ => by
    by_cases hname : p name
    · exact h.getLocal? env name hname
    · exact h'.getLocal? env name hname⟩

/-! ### Reading names -/

theorem chain (h : heap.AgreesOn p heap') (env : Env) : heap.chain env = heap'.chain env :=
  chain_congr h.parent? env

theorem isLocal (h : heap.AgreesOn p heap') (hname : p name) (env : Env) :
    heap.isLocal env name = heap'.isLocal env name := by
  rw [isLocal_eq_isSome, isLocal_eq_isSome, h.getLocal? env name hname]

theorem lookup? (h : heap.AgreesOn p heap') (hname : p name) (env : Env) :
    heap.lookup? env name = heap'.lookup? env name := by
  simp only [lookup?_eq_find?, h.chain, h.isLocal hname]

theorem value {ε : Type} (h : heap.AgreesOn p heap') (hname : p name) (env : Env) :
    (heap.value env name : Except (EvalError ε) Value) = heap'.value env name := by
  simp only [value_eq_value_iff, get?_eq_findSome?, h.chain, h.getLocal? _ name hname]

/-! ### Binding names -/

/-- The same binding, made in both heaps. -/
theorem define (h : heap.AgreesOn p heap') (target : Env) (x : String) (v : Value) :
    (heap.define target x v).2.AgreesOn p (heap'.define target x v).2 := by
  have hthere : (heap.scope? target).map (fun _ => v) = (heap'.scope? target).map fun _ => v := by
    simpa [Function.comp_def] using congrArg (Option.map fun _ => v) (h.parent? target)
  constructor
  · intro env
    rw [map_parent?_define, map_parent?_define, h.parent? env]
  · intro env name hname
    rw [getLocal?_define_eq, getLocal?_define_eq, hthere, h.getLocal? env name hname]

end AgreesOn

/-- A binding of a name is not seen by other names. -/
theorem agreesOn_define_of_not {p : String → Prop} {x : String} (hx : ¬p x) (heap : Heap)
    (target : Env) (v : Value) : (heap.define target x v).2.AgreesOn p heap := by
  constructor
  · intro env
    exact map_parent?_define ..
  · intro env name hname
    have hne : name ≠ x := fun hsame => hx (hsame ▸ hname)
    rw [getLocal?_define_eq, if_neg fun hboth => hne hboth.2]

/-! ### Using names -/

variable {ε : Type} {p : String → Prop} {heap heap' : Heap} {a : Access}

/-- **Heaps that agree on a name answer every use of it in the same way** and agree behind it. -/
theorem AgreesOn.access (h : heap.AgreesOn p heap') (ha : p a.name) :
    (heap.access a : Reply ε × Heap).1 = (heap'.access a).1 ∧
      (heap.access a : Reply ε × Heap).2.AgreesOn p (heap'.access a : Reply ε × Heap).2 := by
  have hdefine (target : Env) (x : String) (v : Value) (hx : p x) :
      (heap.define target x v).1 = (heap'.define target x v).1 ∧
        (heap.define target x v).2.AgreesOn p (heap'.define target x v).2 := by
    rw [(heap.binds_define ..).previous, (heap'.binds_define ..).previous]
    exact ⟨h.getLocal? target x hx, h.define target x v⟩
  cases a with
  | define env x v =>
    obtain ⟨hold, hheap⟩ := hdefine env x v ha
    exact ⟨congrArg Reply.replaced hold, hheap⟩
  | set env x v =>
    -- The binding is changed in the same scope, since the search for it is the same.
    have hlookup : heap.lookup? env x = heap'.lookup? env x := h.lookup? ha env
    obtain ⟨hold, hheap⟩ := hdefine ((heap.lookup? env x).getD env) x v ha
    rw [Heap.access, Heap.access, set, set, ← hlookup]
    exact ⟨congrArg Reply.replaced hold, hheap⟩
  | get env x => exact ⟨congrArg Reply.value (h.value ha env), h⟩
  | lookup env x => exact ⟨congrArg Reply.scope (h.lookup? ha env), h⟩
  | isLocal env x => exact ⟨congrArg Reply.bound (h.isLocal ha env), h⟩

/-- **A use of a name is not noticed by other names.** -/
theorem agreesOn_access_of_not (ha : ¬p a.name) (heap : Heap) :
    (heap.access a : Reply ε × Heap).2.AgreesOn p heap := by
  cases a with
  | define env x v | set env x v => exact agreesOn_define_of_not ha heap _ v
  | get _ _ | lookup _ _ | isLocal _ _ => exact .refl p heap

end Heap

/-! ### Interleavings -/

/-- An interleaving of uses of some names with uses of other names, in a heap that agrees on the
first with one heap and on the others with another one. Either sequence alone, in its own heap, has
the answers that it has in the interleaving. -/
theorem Interleaves.accessAll {ε : Type} {p : String → Prop} {first second mixed : List Access}
    (h : Interleaves first second mixed) {heap heap₁ heap₂ : Heap}
    (hfirst : ∀ a ∈ first, p a.name) (hsecond : ∀ a ∈ second, ¬p a.name)
    (h₁ : heap.AgreesOn p heap₁) (h₂ : heap.AgreesOn (¬p ·) heap₂) :
    Interleaves (heap₁.accessAll first).1 (heap₂.accessAll second).1
        (heap.accessAll mixed : List (Access × Reply ε) × Heap).1 ∧
      (heap.accessAll mixed : List (Access × Reply ε) × Heap).2.AgreesOn p
          (heap₁.accessAll first : List (Access × Reply ε) × Heap).2 ∧
        (heap.accessAll mixed : List (Access × Reply ε) × Heap).2.AgreesOn (¬p ·)
          (heap₂.accessAll second : List (Access × Reply ε) × Heap).2 := by
  induction h generalizing heap heap₁ heap₂ with
  | nil => exact ⟨.nil, h₁, h₂⟩
  | @left a first second mixed _ ih =>
    obtain ⟨ha, hothers⟩ := List.forall_mem_cons.1 hfirst
    obtain ⟨hreply, hheap⟩ := h₁.access (ε := ε) ha
    have hunnoticed := (Heap.agreesOn_access_of_not (ε := ε) (not_not_intro ha) heap).trans h₂
    obtain ⟨hreplies, hheaps⟩ := ih hothers hsecond hheap hunnoticed
    simp only [Heap.accessAll, ← hreply]
    exact ⟨.left hreplies, hheaps⟩
  | @right a first second mixed _ ih =>
    obtain ⟨ha, hothers⟩ := List.forall_mem_cons.1 hsecond
    obtain ⟨hreply, hheap⟩ := h₂.access (ε := ε) ha
    have hunnoticed := (Heap.agreesOn_access_of_not (ε := ε) ha heap).trans h₁
    obtain ⟨hreplies, hheaps⟩ := ih hfirst hothers hunnoticed hheap
    simp only [Heap.accessAll, ← hreply]
    exact ⟨.right hreplies, hheaps⟩

/-- **Uses of different names are independent.** Two sequences of uses have no name in common. Then
in every interleaving of them, each use has the answer that it has when its own sequence is done
alone. And any two interleavings leave the same scopes with the same bindings. -/
theorem accesses_independent {ε : Type} (heap : Heap) {first second : List Access}
    (disjoint : ∀ a ∈ first, ∀ b ∈ second, a.name ≠ b.name) :
    (∀ mixed, Interleaves first second mixed →
      Interleaves (heap.accessAll first).1 (heap.accessAll second).1
        (heap.accessAll mixed : List (Access × Reply ε) × Heap).1) ∧
    ∀ mixed mixed', Interleaves first second mixed → Interleaves first second mixed' →
      (heap.accessAll mixed : List (Access × Reply ε) × Heap).2.AgreesOn (fun _ => True)
        (heap.accessAll mixed' : List (Access × Reply ε) × Heap).2 := by
  -- The names of the first sequence are told apart from all others.
  let p (name : String) : Prop := ∃ a ∈ first, a.name = name
  have hfirst : ∀ a ∈ first, p a.name := fun a ha => ⟨a, ha, rfl⟩
  have hsecond : ∀ b ∈ second, ¬p b.name := fun b hb ⟨a, ha, hname⟩ => disjoint a ha b hb hname
  have halone {mixed : List Access} (h : Interleaves first second mixed) :=
    h.accessAll (ε := ε) hfirst hsecond (.refl p heap) (.refl (¬p ·) heap)
  refine ⟨fun mixed h => (halone h).1, fun mixed mixed' h h' => ?_⟩
  obtain ⟨-, honFirst, honOthers⟩ := halone h
  obtain ⟨-, honFirst', honOthers'⟩ := halone h'
  exact (honFirst.trans honFirst'.symm).all (honOthers.trans honOthers'.symm)

/-- A change of `x` is made in the inner scope, whether it comes before or after `y` is bound in the
outer one and found there. -/
theorem accesses_independent_inside :
    let heap := Heap.empty.performAll [.new, .extend ⟨0⟩]
    let first : List Access := [.set ⟨1⟩ "x" (.integer 1), .get ⟨1⟩ "x"]
    let second : List Access := [.define ⟨0⟩ "y" (.bool true), .lookup ⟨1⟩ "y"]
    let mixed : List Access :=
      [.define ⟨0⟩ "y" (.bool true), .set ⟨1⟩ "x" (.integer 1), .lookup ⟨1⟩ "y", .get ⟨1⟩ "x"]
    (∀ a ∈ first, ∀ b ∈ second, a.name ≠ b.name) ∧ Interleaves first second mixed ∧
      (heap.accessAll first : List (Access × Reply Unit) × Heap).1.map Prod.snd
        = [.replaced none, .value (.ok (.integer 1))] ∧
      Interleaves (heap.accessAll first).1 (heap.accessAll second).1
        (heap.accessAll mixed : List (Access × Reply Unit) × Heap).1 := by
  intro heap first second mixed
  have disjoint : ∀ a ∈ first, ∀ b ∈ second, a.name ≠ b.name := by
    simp [first, second, Access.name]
  have interleaves : Interleaves first second mixed := .right (.left (.right (.left .nil)))
  exact ⟨disjoint, interleaves, by cbv, (accesses_independent heap disjoint).1 mixed interleaves⟩

end HostedLisp
