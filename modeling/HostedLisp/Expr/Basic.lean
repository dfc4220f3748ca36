/-!
# Expressions

A program is a sequence of expressions, and an expression is an atom or the call of a named
procedure. The head of a call is always a name: the result of an expression cannot be called.

Every atom and every tree of calls is an expression, also one that no program text denotes, such as
a negative literal or a variable whose name contains a blank.

## Implementation notes

Trees can be far deeper than a native stack allows to recurse. A function on trees that runs is
therefore a loop over a list of trees still to visit; where a recursive definition says the same
thing more plainly, it stands beside the loop with a proof that they agree. All these loops end
because of `Expr.nodesAll`, the number of nodes in a list of trees.
-/

namespace HostedLisp

/-- An expression without parts. -/
inductive Atom where
  /-- A literal integer. -/
  | integer (value : Int64)
  /-- A literal string. -/
  | string (content : String)
  /-- A literal truth value. -/
  | bool (value : Bool)
  /-- A variable. -/
  | var (name : String)
  deriving DecidableEq, Inhabited

/-- An atom or the call of a named procedure. -/
inductive Expr where
  /-- A literal or a variable. -/
  | atom (a : Atom)
  /-- The call of the procedure that is bound to `function`. -/
  | call (function : String) (arguments : List Expr)
  deriving Inhabited

namespace Expr

/-- A property of all atoms that every call inherits from its arguments holds of every
expression. -/
@[elab_as_elim, induction_eliminator]
theorem induction {motive : Expr → Prop} (atom : ∀ a, motive (.atom a))
    (call : ∀ function arguments, (∀ e ∈ arguments, motive e) → motive (.call function arguments))
    (e : Expr) : motive e :=
  Expr.rec (motive_2 := fun es => ∀ e ∈ es, motive e) atom call (by simp)
    (fun _ _ head tail => by simpa using ⟨head, tail⟩) e

/-! ### The number of nodes -/

mutual

/-- The number of nodes of a tree. -/
def nodes : Expr → Nat
  | .atom _ => 1
  | .call _ arguments => 1 + nodesAll arguments

/-- The number of nodes of some trees together. -/
def nodesAll : List Expr → Nat
  | [] => 0
  | e :: es => e.nodes + nodesAll es

end

@[simp] theorem nodesAll_append (es fs : List Expr) :
    nodesAll (es ++ fs) = nodesAll es + nodesAll fs := by
  induction es with
  | nil => simp [nodesAll]
  | cons e es ih => simp [nodesAll, ih, Nat.add_assoc]

@[simp] theorem nodesAll_reverse (es : List Expr) : nodesAll es.reverse = nodesAll es := by
  induction es with
  | nil => rfl
  | cons e es ih => simp [nodesAll, ih, Nat.add_comm]

theorem nodes_pos (e : Expr) : 0 < e.nodes := by
  cases e <;> simp only [nodes] <;> omega

end Expr

end HostedLisp
