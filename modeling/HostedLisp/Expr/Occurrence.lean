import HostedLisp.Expr.Basic

/-!
# Places in expressions

The same expression can stand at several places inside another one. A place is the list of the
numbers of the arguments on the way to it, the outermost one first and counted from zero, so the
empty list is the place of the whole expression.

An occurrence is an expression together with its place. The occurrences inside an expression are
listed in preorder: a call before its arguments, and these from the left to the right.

## Main definitions

* `Expr.at?` — what stands at a place
* `Occurrence`, `Expr.occurrencesAt` — an expression at a place; all that are inside one

## Main results

* `Expr.length_occurrencesAt` — there are as many occurrences as nodes
* `Expr.mem_occurrencesAt_iff` — the occurrences inside an expression are those of its places
* `Expr.nodup_place_occurrencesAt` — no place is listed twice
-/

namespace HostedLisp

/-- An expression that stands at a place inside another one. -/
structure Occurrence where
  /-- The numbers of the arguments on the way to the expression, the outermost one first. -/
  place : List Nat
  /-- What stands there. -/
  expr : Expr

namespace Expr

/-- What stands at a place. -/
def at? : Expr → List Nat → Option Expr
  | e, [] => some e
  | .call _ arguments, i :: place => arguments[i]?.bind fun argument => argument.at? place
  | .atom _, _ :: _ => none

@[simp] theorem at?_nil (e : Expr) : e.at? [] = some e := by
  cases e <;> rfl

@[simp] theorem at?_atom_cons (a : Atom) (i : Nat) (place : List Nat) :
    (atom a).at? (i :: place) = none := rfl

@[simp] theorem at?_call_cons (function : String) (arguments : List Expr) (i : Nat)
    (place : List Nat) : (call function arguments).at? (i :: place)
      = arguments[i]?.bind fun argument => argument.at? place := rfl

/-- A place inside what stands at another place. -/
theorem at?_append (e : Expr) (outer inner : List Nat) :
    e.at? (outer ++ inner) = (e.at? outer).bind fun there => there.at? inner := by
  induction outer generalizing e with
  | nil => simp
  | cons i outer ih =>
    cases e with
    | atom a => rfl
    | call function arguments => cases h : arguments[i]? <;> simp [h, ih]

/-! ### All occurrences -/

mutual

/-- All that occurs inside an expression, which itself stands at `place`, in preorder. -/
def occurrencesAt (place : List Nat) : Expr → List Occurrence
  | .atom a => [⟨place, .atom a⟩]
  | .call function arguments =>
    ⟨place, .call function arguments⟩ :: occurrencesFrom place 0 arguments

/-- All that occurs inside some arguments of the call at `place`, the first of which has the number
`i`. -/
def occurrencesFrom (place : List Nat) (i : Nat) : List Expr → List Occurrence
  | [] => []
  | e :: es => e.occurrencesAt (place ++ [i]) ++ occurrencesFrom place (i + 1) es

end

mutual

/-- There are as many occurrences as nodes. -/
theorem length_occurrencesAt (place : List Nat) (e : Expr) :
    (e.occurrencesAt place).length = e.nodes := by
  match e with
  | .atom a => rfl
  | .call function arguments =>
    simp only [occurrencesAt, nodes, List.length_cons, length_occurrencesFrom place 0 arguments]
    omega

theorem length_occurrencesFrom (place : List Nat) (i : Nat) (es : List Expr) :
    (occurrencesFrom place i es).length = nodesAll es := by
  match es with
  | [] => rfl
  | e :: es =>
    simp only [occurrencesFrom, nodesAll, List.length_append,
      length_occurrencesAt (place ++ [i]) e, length_occurrencesFrom place (i + 1) es]

end

/-- The first occurrence is that of the whole expression. -/
theorem exists_occurrencesAt_eq (place : List Nat) (e : Expr) :
    ∃ others, e.occurrencesAt place = ⟨place, e⟩ :: others := by
  cases e with
  | atom a => exact ⟨[], rfl⟩
  | call function arguments => exact ⟨_, rfl⟩

/-- What occurs inside some arguments stands inside one of them. -/
theorem mem_occurrencesFrom_iff {place : List Nat} {i : Nat} {es : List Expr} {o : Occurrence}
    (h : ∀ e ∈ es, ∀ place, o ∈ e.occurrencesAt place ↔
      ∃ inner, o.place = place ++ inner ∧ e.at? inner = some o.expr) :
    o ∈ occurrencesFrom place i es ↔
      ∃ j e inner, es[j]? = some e ∧ o.place = place ++ (i + j) :: inner ∧
        e.at? inner = some o.expr := by
  induction es generalizing i with
  | nil => simp [occurrencesFrom]
  | cons first es ih =>
    have hfirst := h first (by simp) (place ++ [i])
    have hothers := ih (i := i + 1) fun e he => h e (by simp [he])
    rw [occurrencesFrom, List.mem_append, hfirst, hothers]
    constructor
    · rintro (⟨inner, hplace, hat⟩ | ⟨j, e, inner, he, hplace, hat⟩)
      · exact ⟨0, first, inner, rfl, by simpa using hplace, hat⟩
      · exact ⟨j + 1, e, inner, he, by rw [hplace, Nat.add_assoc, Nat.add_comm 1 j], hat⟩
    · rintro ⟨j, e, inner, he, hplace, hat⟩
      cases j with
      | zero =>
        obtain rfl : first = e := by simpa using he
        exact .inl ⟨inner, by simpa using hplace, hat⟩
      | succ j =>
        exact .inr ⟨j, e, inner, he, by rw [hplace, Nat.add_assoc, Nat.add_comm 1 j], hat⟩

/-- **The occurrences inside an expression are those of its places.** -/
theorem mem_occurrencesAt_iff {place : List Nat} {e : Expr} {o : Occurrence} :
    o ∈ e.occurrencesAt place ↔ ∃ inner, o.place = place ++ inner ∧ e.at? inner = some o.expr := by
  obtain ⟨here, node⟩ := o
  induction e generalizing place with
  | atom a =>
    simp only [occurrencesAt, List.mem_singleton, Occurrence.mk.injEq]
    constructor
    · rintro ⟨rfl, rfl⟩
      exact ⟨[], by simp, rfl⟩
    · rintro ⟨inner, hplace, hat⟩
      cases inner with
      | nil => exact ⟨by simpa using hplace, by simpa using hat.symm⟩
      | cons i inner => simp at hat
  | call function arguments ih =>
    rw [occurrencesAt, List.mem_cons, mem_occurrencesFrom_iff fun e he place => ih e he]
    constructor
    · rintro (hhere | ⟨j, e, inner, he, hplace, hat⟩)
      · obtain ⟨rfl, rfl⟩ := Occurrence.mk.inj hhere
        exact ⟨[], by simp, rfl⟩
      · exact ⟨j :: inner, by simpa using hplace, by simp [he, hat]⟩
    · rintro ⟨inner, hplace, hat⟩
      cases inner with
      | nil =>
        refine .inl ?_
        rw [Occurrence.mk.injEq]
        exact ⟨by simpa using hplace, by simpa using hat.symm⟩
      | cons j inner =>
        obtain ⟨e, he, hat⟩ := Option.bind_eq_some_iff.1 hat
        exact .inr ⟨j, e, inner, he, by simpa using hplace, hat⟩

mutual

/-- **No place is listed twice.** -/
theorem nodup_place_occurrencesAt (place : List Nat) (e : Expr) :
    ((e.occurrencesAt place).map Occurrence.place).Nodup := by
  match e with
  | .atom a => simp [occurrencesAt]
  | .call function arguments =>
    rw [occurrencesAt, List.map_cons, List.nodup_cons]
    refine ⟨?_, nodup_place_occurrencesFrom place 0 arguments⟩
    intro hmem
    obtain ⟨o, ho, hplace⟩ := List.mem_map.1 hmem
    obtain ⟨j, e, inner, -, hinside, -⟩ :=
      (mem_occurrencesFrom_iff fun e _ place => mem_occurrencesAt_iff).1 ho
    simp [hinside] at hplace

theorem nodup_place_occurrencesFrom (place : List Nat) (i : Nat) (es : List Expr) :
    ((occurrencesFrom place i es).map Occurrence.place).Nodup := by
  match es with
  | [] => simp [occurrencesFrom]
  | e :: es =>
    rw [occurrencesFrom, List.map_append, List.nodup_append]
    refine ⟨nodup_place_occurrencesAt (place ++ [i]) e,
      nodup_place_occurrencesFrom place (i + 1) es, ?_⟩
    -- The number of the argument tells the places in the first one from those behind it.
    rintro here hfirst there hothers rfl
    obtain ⟨o, ho, rfl⟩ := List.mem_map.1 hfirst
    obtain ⟨o', ho', hsame⟩ := List.mem_map.1 hothers
    obtain ⟨inner, hplace, -⟩ := mem_occurrencesAt_iff.1 ho
    obtain ⟨j, e', inner', -, hplace', -⟩ :=
      (mem_occurrencesFrom_iff fun e _ place => mem_occurrencesAt_iff).1 ho'
    rw [hplace, hplace', List.append_assoc, List.append_cancel_left_eq] at hsame
    have hnumber := (List.cons.inj hsame).1
    omega

end

/-- A call comes before its arguments, and equal arguments have places of their own. -/
example : let x : Expr := .atom (.var "x")
    ((call "f" [call "g" [x], x]).occurrencesAt []).map Occurrence.place
      = [[], [0], [0, 0], [1]] := rfl

end Expr

end HostedLisp
