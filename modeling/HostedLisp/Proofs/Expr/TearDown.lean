import HostedLisp.Expr.Occurrence
import HostedLisp.Expr.TearDown
import Mathlib.Logic.Function.Iterate

/-!
# Tear-downs are complete and flat

The list of a tear-down starts with the arguments of a call, and a tree that is taken off leaves its
arguments behind. So what is still to be taken off is always all that occurs inside the trees of the
list, and in the end everything inside the call has been taken off once.

A tree is released in the loop when its arguments have been moved away. If it is a call, its own
tear-down starts with an empty list and ends in the next step. So there are never more than two
tear-downs under way, and only the outer one ever makes a turn of its loop.

## Main definitions

* `Release.Flat` — the states that a release goes through

## Main results

* `Expr.exists_perm_tearDownPending` — a list of trees is taken off with all that occurs in it
* `Release.flat_step`, `Release.flat_iterate` — a step, and many steps
* `Release.exists_iterate_eq` — a release ends
* `tearDown_complete_and_flat` — tear-downs in full
-/

namespace HostedLisp

namespace Expr

/-! ### What is taken off -/

/-- The arguments of the call at `place` as occurrences, when the first one has the number `i`. -/
def argumentsAt (place : List Nat) (i : Nat) : List Expr → List Occurrence
  | [] => []
  | e :: es => ⟨place ++ [i], e⟩ :: argumentsAt place (i + 1) es

theorem map_expr_argumentsAt (place : List Nat) (i : Nat) (es : List Expr) :
    (argumentsAt place i es).map Occurrence.expr = es := by
  induction es generalizing i with
  | nil => rfl
  | cons e es ih => rw [argumentsAt, List.map_cons, ih]

/-- All that occurs at and inside some occurrences. -/
def occurrencesIn (os : List Occurrence) : List Occurrence :=
  os.flatMap fun o => o.expr.occurrencesAt o.place

theorem occurrencesIn_argumentsAt (place : List Nat) (i : Nat) (es : List Expr) :
    occurrencesIn (argumentsAt place i es) = occurrencesFrom place i es := by
  induction es generalizing i with
  | nil => rfl
  | cons e es ih =>
    rw [argumentsAt, occurrencesIn, List.flatMap_cons, ← occurrencesIn, ih, occurrencesFrom]

theorem occurrencesAt_eq (place : List Nat) (e : Expr) :
    e.occurrencesAt place = ⟨place, e⟩ :: occurrencesFrom place 0 e.arguments := by
  cases e <;> rfl

/-- **The trees of a list are taken off with all that occurs inside them**, each occurrence once. -/
theorem exists_perm_tearDownPending (os : List Occurrence) :
    ∃ taken : List Occurrence,
      taken.map Occurrence.expr = tearDownPending (os.map Occurrence.expr) ∧
        taken.Perm (occurrencesIn os) := by
  obtain ⟨pending, hpending⟩ : ∃ pending, pending = os.map Occurrence.expr := ⟨_, rfl⟩
  rw [← hpending]
  fun_induction tearDownPending pending generalizing os with
  | case1 =>
    obtain rfl : os = [] := List.map_eq_nil_iff.1 hpending.symm
    exact ⟨[], rfl, .nil⟩
  | case2 e pending ih =>
    obtain ⟨o, others, rfl, rfl, rfl⟩ := List.map_eq_cons_iff.1 hpending.symm
    obtain ⟨taken, htaken, hperm⟩ :=
      ih ((argumentsAt o.place 0 o.expr.arguments).reverse ++ others) (by
        rw [List.map_append, List.map_reverse, map_expr_argumentsAt])
    refine ⟨o :: taken, by rw [List.map_cons, htaken], ?_⟩
    have hmoved : (occurrencesIn ((argumentsAt o.place 0 o.expr.arguments).reverse ++ others)).Perm
        (occurrencesFrom o.place 0 o.expr.arguments ++ occurrencesIn others) := by
      rw [occurrencesIn, List.flatMap_append, ← occurrencesIn, ← occurrencesIn,
        ← occurrencesIn_argumentsAt]
      exact ((List.reverse_perm _).flatMap_right _).append_right _
    rw [occurrencesIn, List.flatMap_cons, occurrencesAt_eq, List.cons_append]
    exact (hperm.trans hmoved).cons o

/-- What is taken off while a tree is torn down is all that occurs inside it. -/
theorem exists_perm_tearDown (e : Expr) :
    ∃ taken : List Occurrence, taken.map Occurrence.expr = e.tearDown ∧
      taken.Perm (occurrencesFrom [] 0 e.arguments) := by
  obtain ⟨taken, htaken, hperm⟩ :=
    exists_perm_tearDownPending (argumentsAt [] 0 e.arguments).reverse
  rw [List.map_reverse, map_expr_argumentsAt] at htaken
  refine ⟨taken, htaken, hperm.trans ?_⟩
  rw [← occurrencesIn_argumentsAt]
  exact (List.reverse_perm _).flatMap_right _

/-- What occurs inside a tree stands at a place other than that of the whole tree. -/
theorem mem_occurrencesFrom_arguments_iff {e : Expr} {o : Occurrence} :
    o ∈ occurrencesFrom [] 0 e.arguments ↔ o.place ≠ [] ∧ e.at? o.place = some o.expr := by
  have hwhole : o ∈ e.occurrencesAt [] ↔ e.at? o.place = some o.expr := by
    rw [mem_occurrencesAt_iff]
    simp
  have hnodup := nodup_place_occurrencesAt [] e
  rw [occurrencesAt_eq, List.mem_cons] at hwhole
  rw [occurrencesAt_eq, List.map_cons, List.nodup_cons] at hnodup
  constructor
  · intro ho
    refine ⟨fun hplace => hnodup.1 ?_, hwhole.1 (.inr ho)⟩
    exact List.mem_map.2 ⟨o, ho, hplace⟩
  · rintro ⟨hplace, hat⟩
    rcases hwhole.2 hat with rfl | ho
    · exact absurd rfl hplace
    · exact ho

end Expr

namespace Release

/-! ### What is under way -/

/-- The states that a release goes through, each with the list of the outer tear-down: it makes a
turn of its loop, or waits for a call that has nothing left in it. -/
inductive Flat : Release → List Expr → Prop where
  /-- Everything has been released. -/
  | ended (taken : List Expr) : Flat ⟨[], taken⟩ []
  /-- The loop is at a turn, or at its end. -/
  | loop (pending taken : List Expr) : Flat ⟨[⟨[], pending⟩], taken⟩ pending
  /-- A call is released in the loop. -/
  | inside (pending taken : List Expr) : Flat ⟨[⟨[], []⟩, ⟨[], pending⟩], taken⟩ pending

theorem flat_start (e : Expr) :
    ∃ pending, Flat (start e) pending ∧ Expr.tearDownPending pending = e.tearDown := by
  cases e with
  | atom a => exact ⟨[], .ended [], rfl⟩
  | call function arguments => exact ⟨_, .loop _ [], rfl⟩

/-- A turn of the loop releases a tree without arguments. -/
theorem flat_turn (e : Expr) (pending taken : List Expr) :
    Flat (step ⟨[⟨[], e :: pending⟩], taken⟩) (e.arguments.reverse ++ pending) ∧
      (step ⟨[⟨[], e :: pending⟩], taken⟩).taken = taken ++ [e] := by
  cases e with
  | atom a => exact ⟨.loop .., rfl⟩
  | call function arguments => exact ⟨.inside .., rfl⟩

/-- **A step** keeps a release flat, and what has been and will be taken off stays the same. -/
theorem flat_step {s : Release} {pending : List Expr} (h : Flat s pending) :
    ∃ pending', Flat s.step pending' ∧
      s.step.taken ++ Expr.tearDownPending pending'
        = s.taken ++ Expr.tearDownPending pending := by
  cases h with
  | ended taken => exact ⟨[], .ended taken, rfl⟩
  | inside pending taken => exact ⟨pending, .loop pending taken, rfl⟩
  | loop pending taken =>
    cases pending with
    | nil => exact ⟨[], .ended taken, rfl⟩
    | cons e pending =>
      obtain ⟨hflat, htaken⟩ := flat_turn e pending taken
      refine ⟨_, hflat, ?_⟩
      rw [htaken, Expr.tearDownPending, List.append_assoc, List.singleton_append]

/-- **Many steps** do so, too. -/
theorem flat_iterate (e : Expr) (n : Nat) :
    ∃ pending, Flat (step^[n] (start e)) pending ∧
      (step^[n] (start e)).taken ++ Expr.tearDownPending pending = e.tearDown := by
  induction n with
  | zero =>
    obtain ⟨pending, hflat, hpending⟩ := flat_start e
    exact ⟨pending, hflat, hpending⟩
  | succ n ih =>
    obtain ⟨pending, hflat, htaken⟩ := ih
    obtain ⟨pending', hflat', htaken'⟩ := flat_step hflat
    rw [Function.iterate_succ_apply']
    exact ⟨pending', hflat', htaken'.trans htaken⟩

/-- **The loop ends** when all its trees have been taken off. -/
theorem exists_iterate_loop (pending taken : List Expr) :
    ∃ n, step^[n] ⟨[⟨[], pending⟩], taken⟩
      = ⟨[], taken ++ Expr.tearDownPending pending⟩ := by
  fun_induction Expr.tearDownPending pending generalizing taken with
  | case1 => exact ⟨1, by rw [List.append_nil]; rfl⟩
  | case2 e pending ih =>
    obtain ⟨n, hn⟩ := ih (taken ++ [e])
    rw [List.append_assoc, List.singleton_append] at hn
    cases e with
    | atom a => exact ⟨n + 1, hn⟩
    | call function arguments => exact ⟨n + 2, hn⟩

theorem exists_iterate_eq (e : Expr) : ∃ n, step^[n] (start e) = ⟨[], e.tearDown⟩ := by
  cases e with
  | atom a =>
    have hnothing : (Expr.atom a).tearDown = [] := by
      rw [Expr.tearDown, Expr.arguments, List.reverse_nil, Expr.tearDownPending]
    exact ⟨0, by rw [hnothing]; rfl⟩
  | call function arguments => exact exists_iterate_loop arguments.reverse []

/-- At most two tear-downs are under way, no call that is torn down has an argument left, and only
the loop of the outermost one has trees to take off. -/
theorem Flat.frames {s : Release} {pending : List Expr} (h : Flat s pending) :
    s.frames.length ≤ 2 ∧ (∀ frame ∈ s.frames, frame.arguments = []) ∧
      ∀ frame ∈ s.frames.dropLast, frame.pending = [] := by
  cases h <;> simp

end Release

/-- **Tear-downs are complete and flat.** While a tree is released there are at most two tear-downs
under way at a time, the inner one with nothing to take off, and the calls that are torn down have
no arguments any more. The release ends, and by then its loop has taken off as many trees as the
tree has nodes inside it: what stands at each place inside the tree, once. -/
theorem tearDown_complete_and_flat (e : Expr) :
    (∀ n, let s := Release.step^[n] (.start e)
      s.frames.length ≤ 2 ∧ (∀ frame ∈ s.frames, frame.arguments = []) ∧
        ∀ frame ∈ s.frames.dropLast, frame.pending = []) ∧
    (∃ n, Release.step^[n] (.start e) = ⟨[], e.tearDown⟩) ∧
    e.tearDown.length + 1 = e.nodes ∧
    ∃ places : List (List Nat), places.Nodup ∧
      (∀ place, place ∈ places ↔ place ≠ [] ∧ (e.at? place).isSome) ∧
      places.map e.at? = e.tearDown.map some := by
  obtain ⟨taken, htaken, hperm⟩ := e.exists_perm_tearDown
  have hmem {o : Occurrence} : o ∈ taken ↔ o.place ≠ [] ∧ e.at? o.place = some o.expr :=
    hperm.mem_iff.trans Expr.mem_occurrencesFrom_arguments_iff
  refine ⟨?_, Release.exists_iterate_eq e, ?_, taken.map Occurrence.place, ?_, ?_, ?_⟩
  · intro n
    obtain ⟨pending, hflat, -⟩ := Release.flat_iterate e n
    exact hflat.frames
  · rw [← htaken, List.length_map, hperm.length_eq, Expr.length_occurrencesFrom, e.nodes_eq,
      Nat.add_comm]
  · rw [(hperm.map Occurrence.place).nodup_iff]
    exact Expr.nodup_place_occurrencesFrom [] 0 e.arguments
  · intro place
    rw [List.mem_map]
    constructor
    · rintro ⟨o, ho, rfl⟩
      obtain ⟨hplace, hat⟩ := hmem.1 ho
      exact ⟨hplace, Option.isSome_iff_exists.2 ⟨_, hat⟩⟩
    · rintro ⟨hplace, hsome⟩
      obtain ⟨node, hat⟩ := Option.isSome_iff_exists.1 hsome
      exact ⟨⟨place, node⟩, hmem.2 ⟨hplace, hat⟩, rfl⟩
  · rw [← htaken, List.map_map, List.map_map]
    exact List.map_congr_left fun o ho => (hmem.1 ho).2

end HostedLisp
