import HostedLisp.Expr.Basic

/-!
# Tearing trees down

A tree is released without recursion: its arguments go to a list of trees that are to be released.
As long as that list is not empty its last tree is taken off, the arguments of that tree are moved
to the end of the list, and the tree itself is released, which by then has no arguments.

Releasing a call of its own accord tears it down, and so does releasing it in the loop of another
tear-down; what a call still has behind its loop is released then. `Release` is this with all
tear-downs that are under way at a time, one inside the other.

## Main definitions

* `Expr.hollow`, `Expr.arguments` — a node without its arguments, and the arguments
* `Expr.tearDown` — the trees that are taken off the list, in order
* `Release`, `Release.step` — the tear-downs under way while a tree is released, step by step
-/

namespace HostedLisp

namespace Expr

/-- The arguments of a node. -/
def arguments : Expr → List Expr
  | .atom _ => []
  | .call _ arguments => arguments

/-- A node whose arguments have been moved away. -/
def hollow : Expr → Expr
  | .atom a => .atom a
  | .call function _ => .call function []

theorem nodes_eq (e : Expr) : e.nodes = 1 + nodesAll e.arguments := by
  cases e <;> simp [nodes, arguments, nodesAll]

/-- Takes trees off the end of `pending`, which is listed with its last tree first, until none is
left. -/
def tearDownPending : List Expr → List Expr
  | [] => []
  | e :: pending => e :: tearDownPending (e.arguments.reverse ++ pending)
termination_by pending => nodesAll pending
decreasing_by
  simp only [nodesAll_append, nodesAll, nodesAll_reverse, nodes_eq e]
  omega

/-- The trees that are taken off the list while `e` is torn down, each as it is when it is taken
off. -/
def tearDown (e : Expr) : List Expr := tearDownPending e.arguments.reverse

end Expr

/-- A call that is being torn down. -/
structure Frame where
  /-- The arguments that the call still has. -/
  arguments : List Expr
  /-- The list of its loop, with the last tree first. -/
  pending : List Expr

/-- What is under way while a tree is released. -/
structure Release where
  /-- The calls that are being torn down, the innermost one first. -/
  frames : List Frame
  /-- The trees that loops have taken off their lists so far, in order. -/
  taken : List Expr

/-- Begins to release a tree: the tear-down of a call takes its arguments for the list of its loop,
and an atom is gone at once. -/
def Expr.enter : Expr → List Frame → List Frame
  | .atom _, frames => frames
  | .call _ arguments, frames => ⟨[], arguments.reverse⟩ :: frames

namespace Release

/-- A tree is released. -/
def start (e : Expr) : Release := ⟨e.enter [], []⟩

/-- The innermost tear-down goes on: by a turn of its loop, which moves the arguments of the tree
that it takes off to the list and then releases the tree, or, behind its loop, by releasing an
argument that its call still has, and at last by its end. -/
def step (s : Release) : Release :=
  match s.frames with
  | [] => s
  | ⟨arguments, e :: pending⟩ :: outer =>
    ⟨e.hollow.enter (⟨arguments, e.arguments.reverse ++ pending⟩ :: outer), s.taken ++ [e]⟩
  | ⟨e :: arguments, []⟩ :: outer => ⟨e.enter (⟨arguments, []⟩ :: outer), s.taken⟩
  | ⟨[], []⟩ :: outer => ⟨outer, s.taken⟩

end Release

end HostedLisp
