import HostedLisp.Expr.Basic

/-!
# Expressions as lists of nodes

A tree is determined by the list of its nodes in preorder, in which a call tells how many arguments
follow it. The list is read back from its end: every node finds its arguments already rebuilt.

Equality of trees is decided on their lists, which are flat.

## Main results

* `Expr.toPreorder_eq` — the loop gives the preorder
* `Expr.ofPreorder?_preorder` — the list of a tree is read back as that tree
-/

namespace HostedLisp

/-- A node of an expression, without its arguments. -/
inductive Node where
  /-- A literal or a variable. -/
  | atom (a : Atom)
  /-- A call with `arity` arguments. -/
  | call (function : String) (arity : Nat)
  deriving DecidableEq, Inhabited

namespace Expr

mutual

/-- The nodes of a tree in preorder. -/
def preorder : Expr → List Node
  | .atom a => [.atom a]
  | .call function arguments => .call function arguments.length :: preorderAll arguments

/-- The nodes of some trees in preorder. -/
def preorderAll : List Expr → List Node
  | [] => []
  | e :: es => e.preorder ++ preorderAll es

end

/-- Appends the nodes of the trees in `work` to `seen`. -/
def preorderOnto (seen : Array Node) : List Expr → Array Node
  | [] => seen
  | .atom a :: work => preorderOnto (seen.push (.atom a)) work
  | .call function arguments :: work =>
    preorderOnto (seen.push (.call function arguments.length)) (arguments ++ work)
termination_by work => nodesAll work
decreasing_by all_goals simp only [nodesAll_append, nodesAll, nodes]; omega

/-- The nodes of a tree in preorder, in one visit. -/
def toPreorder (e : Expr) : Array Node := preorderOnto #[] [e]

@[simp] theorem preorderAll_append (es fs : List Expr) :
    preorderAll (es ++ fs) = preorderAll es ++ preorderAll fs := by
  induction es with
  | nil => rfl
  | cons e es ih => simp [preorderAll, ih]

theorem preorderOnto_eq (seen : Array Node) (work : List Expr) :
    (preorderOnto seen work).toList = seen.toList ++ preorderAll work := by
  fun_induction preorderOnto seen work <;> simp_all [preorderAll, preorder]

/-- One visit of the tree gives its preorder. -/
theorem toPreorder_eq (e : Expr) : e.toPreorder.toList = e.preorder := by
  simp [toPreorder, preorderOnto_eq, preorderAll]

/-! ### Reading back -/

/-- Puts a node on top of the trees that its arguments start; a call with too few trees behind it
is no tree. -/
def graft? : Node → List Expr → Option (List Expr)
  | .atom a, trees => some (.atom a :: trees)
  | .call function arity, trees =>
    let arguments := trees.take arity
    if arguments.length = arity then some (.call function arguments :: trees.drop arity) else none

/-- The trees that a list of nodes denotes one after the other. -/
def forest? (nodes : List Node) : Option (List Expr) :=
  nodes.foldr (fun node trees => trees.bind (graft? node)) (some [])

/-- The tree that a list of nodes denotes. -/
def ofPreorder? (nodes : List Node) : Option Expr :=
  match forest? nodes with
  | some [e] => some e
  | _ => none

mutual

theorem foldr_graft_preorder (e : Expr) (trees : List Expr) :
    e.preorder.foldr (fun node trees => trees.bind (graft? node)) (some trees)
      = some (e :: trees) := by
  match e with
  | .atom a => rfl
  | .call function arguments =>
    simp [preorder, foldr_graft_preorderAll arguments trees, graft?]

theorem foldr_graft_preorderAll (es trees : List Expr) :
    (preorderAll es).foldr (fun node trees => trees.bind (graft? node)) (some trees)
      = some (es ++ trees) := by
  match es with
  | [] => rfl
  | e :: es =>
    simp [preorderAll, foldr_graft_preorderAll es trees, foldr_graft_preorder e (es ++ trees)]

end

/-- The list of a tree is read back as that tree. -/
theorem ofPreorder?_preorder (e : Expr) : ofPreorder? e.preorder = some e := by
  simp [ofPreorder?, forest?, foldr_graft_preorder]

theorem toPreorder_inj {e f : Expr} : e.toPreorder = f.toPreorder ↔ e = f := by
  refine ⟨fun h => ?_, fun h => h ▸ rfl⟩
  have h := congrArg (ofPreorder? ∘ Array.toList) h
  simpa [toPreorder_eq, ofPreorder?_preorder] using h

/-- Trees are equal when their lists of nodes are. -/
instance : DecidableEq Expr := fun _ _ => decidable_of_iff _ toPreorder_inj

end Expr

end HostedLisp
