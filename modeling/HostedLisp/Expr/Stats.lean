import HostedLisp.Expr.Basic

/-!
# The size of expressions

How many nodes and calls a tree has and how many levels it spans.

## Main results

* `Expr.stats_eq` — the loop that visits the tree once agrees with the three recursive measures
-/

namespace HostedLisp

/-- What is counted of a tree. -/
structure Stats where
  /-- The number of nodes. -/
  nodes : Nat
  /-- The number of nodes that are calls. -/
  calls : Nat
  /-- The number of levels: one for an atom or a call without arguments. -/
  depth : Nat
  deriving DecidableEq, Inhabited

namespace Expr

mutual

/-- The number of calls in a tree. -/
def calls : Expr → Nat
  | .atom _ => 0
  | .call _ arguments => 1 + callsAll arguments

/-- The number of calls in some trees together. -/
def callsAll : List Expr → Nat
  | [] => 0
  | e :: es => e.calls + callsAll es

end

mutual

/-- The number of levels of a tree. -/
def depth : Expr → Nat
  | .atom _ => 1
  | .call _ arguments => 1 + depthAll arguments

/-- The number of levels of the deepest of some trees. -/
def depthAll : List Expr → Nat
  | [] => 0
  | e :: es => max e.depth (depthAll es)

end

theorem callsAll_append (es fs : List Expr) :
    callsAll (es ++ fs) = callsAll es + callsAll fs := by
  induction es with
  | nil => simp [callsAll]
  | cons e es ih => simp [callsAll, ih, Nat.add_assoc]

/-! ### Measuring in one visit -/

/-- Notes of every tree how many calls are around it. -/
def within (around : Nat) (es : List Expr) : List (Nat × Expr) := es.map (around, ·)

@[simp] theorem map_snd_within (around : Nat) (es : List Expr) :
    (within around es).map Prod.snd = es := by
  simp [within, Function.comp_def]

/-- Adds the trees of `work` to `seen`. Each tree comes with the number of calls around it. -/
def statsOnto (seen : Stats) : List (Nat × Expr) → Stats
  | [] => seen
  | (around, .atom _) :: work =>
    statsOnto ⟨seen.nodes + 1, seen.calls, max seen.depth (around + 1)⟩ work
  | (around, .call _ arguments) :: work =>
    statsOnto ⟨seen.nodes + 1, seen.calls + 1, max seen.depth (around + 1)⟩
      (within (around + 1) arguments ++ work)
termination_by work => nodesAll (work.map Prod.snd)
decreasing_by
  all_goals
    simp only [List.map_append, List.map_cons, map_snd_within, nodesAll_append, nodesAll, nodes]
    omega

/-- Measures a tree in one visit. -/
def stats (e : Expr) : Stats := statsOnto ⟨0, 0, 0⟩ [(0, e)]

/-- The level that the deepest of some trees reaches, each below a number of calls. -/
private def reach : List (Nat × Expr) → Nat
  | [] => 0
  | (around, e) :: work => max (around + e.depth) (reach work)

private theorem max_reach_within (around : Nat) (es : List Expr) (work : List (Nat × Expr)) :
    max around (reach (within around es ++ work))
      = max (around + depthAll es) (reach work) := by
  induction es with
  | nil => rfl
  | cons e es ih =>
    simp only [within, List.map_cons, List.cons_append, reach, depthAll] at ih ⊢
    omega

private theorem statsOnto_eq (seen : Stats) (work : List (Nat × Expr)) :
    statsOnto seen work = ⟨seen.nodes + nodesAll (work.map Prod.snd),
      seen.calls + callsAll (work.map Prod.snd), max seen.depth (reach work)⟩ := by
  fun_induction statsOnto seen work with
  | case1 => simp [nodesAll, callsAll, reach]
  | case2 _ _ _ _ ih =>
    simp only [ih, nodesAll, nodes, callsAll, calls, depth, reach, List.map_cons, Stats.mk.injEq]
    omega
  | case3 seen around _ arguments work ih =>
    have := max_reach_within (around + 1) arguments work
    simp only [ih, nodesAll, nodes, callsAll, calls, depth, reach, List.map_cons, List.map_append,
      map_snd_within, nodesAll_append, callsAll_append,
      Stats.mk.injEq]
    omega

/-- One visit of a tree gives its three measures. -/
theorem stats_eq (e : Expr) : e.stats = ⟨e.nodes, e.calls, e.depth⟩ := by
  simp [stats, statsOnto_eq, nodesAll, callsAll, reach]

end Expr

end HostedLisp
