import Mathlib
import HostedLisp.Proofs.Scope.Binding
import HostedLisp.Proofs.Text.Escaped
import HostedLisp.Scope.Operation
import HostedLisp.Scope.Picture

/-!
# Pictures show which names are bound

A picture of a scope is read by people, and compared by programs that want to know whether anything
was bound. For either it must say no less than the names that are bound on each level, and no more,
so that scopes with the same names have the same picture, however they came to have them.

That it says no less is not clear from the names alone: any text can be a name, also one that looks
like the end of a list of names, or like a whole picture. What helps is that names are escaped, and
that a level never begins like the absence of one. Both forms of a picture are put together in the
same way, so this is shown for any `Layout` and then used for the two there are.

That it says no more is a matter of the order. The bindings of a scope may come up in any order, and
do so in a different one whenever a scope is asked again; the picture sorts them.

## Main definitions

* `Picture.Layout` — the parts of a picture that depend on its form
* `Heap.SameNames` — two scopes with the same names on each level
* `Heap.Enumerates`, `Heap.sortedLevels` — names that come up in some order, and sorting them
* `Heap.defineAll` — many bindings

## Main results

* `Picture.delimits_line`, `Picture.delimits_block` — reading the levels off their picture
* `Heap.Enumerates.sortedLevels_eq` — the order in which names come up does not matter
* `Heap.sameNames_defineAll` — nor does the order in which they are bound
* `scope_picture_canonical` — pictures are equal if and only if the names on each level are
-/

namespace HostedLisp

/-! ### Texts of levels -/

namespace Picture

/-- The parts that the picture of a level is put together from. -/
structure Layout where
  /-- What a level begins with. -/
  start : String
  /-- The list of the names, and all that stands between it and the levels around. -/
  names : List String → String
  /-- What the levels around begin with. -/
  opening : String
  /-- What the levels around end with. -/
  closing : String
  /-- What a level ends with. -/
  stop : String
  /-- A level is not taken for the absence of one. -/
  start_ne : ∀ r s : List Char, start.toList ++ r ≠ "None".toList ++ s
  /-- The levels around are not taken for the absence of them. -/
  opening_ne : ∀ r s : List Char, opening.toList ++ r ≠ "None".toList ++ s
  /-- The names of a level can be read off its list. -/
  delimits_names : ∀ ns, Delimits (fun ns => (names ns).toList) ns

namespace Layout

variable (layout : Layout)

/-- The levels around a level, where `drawOuter` draws them. -/
def around (drawOuter : List (List String) → String) : List (List String) → String
  | [] => "None"
  | names :: outer => layout.opening ++ drawOuter (names :: outer) ++ layout.closing

/-- Some levels, where `drawOuter` draws those around the first one. -/
def draw (drawOuter : List (List String) → String) : List (List String) → String
  | [] => "None"
  | names :: outer =>
    layout.start ++ layout.names names ++ layout.around drawOuter outer ++ layout.stop

variable {layout} {drawOuter : List (List String) → String}

theorem delimits_around {outer : List (List String)}
    (houter : Delimits (fun levels => (drawOuter levels).toList) outer) :
    Delimits (fun levels => (layout.around drawOuter levels).toList) outer := by
  have hne (names : List String) (outer : List (List String)) (r s : List Char) :
      (layout.around drawOuter (names :: outer)).toList ++ r ≠ "None".toList ++ s := by
    simpa only [around, String.toList_append, List.append_assoc] using layout.opening_ne _ s
  cases outer with
  | nil => exact delimits_nil hne
  | cons names outer =>
    refine delimits_cons hne fun names' outer' r s h => ?_
    simp only [around, String.toList_append, List.append_assoc, List.append_cancel_left_eq] at h
    obtain ⟨hlevels, hrest⟩ := houter h
    exact ⟨List.cons.inj hlevels, List.append_cancel_left hrest⟩

theorem draw_cons_ne (names : List String) (outer : List (List String)) (r s : List Char) :
    (layout.draw drawOuter (names :: outer)).toList ++ r ≠ "None".toList ++ s := by
  simpa only [draw, String.toList_append, List.append_assoc] using layout.start_ne _ s

theorem delimits_draw_nil : Delimits (fun levels => (layout.draw drawOuter levels).toList) [] :=
  delimits_nil draw_cons_ne

/-- A level and those around it can be read off their picture if those around it can be read off
theirs. -/
theorem delimits_draw_cons {names : List String} {outer : List (List String)}
    (houter : Delimits (fun levels => (drawOuter levels).toList) outer) :
    Delimits (fun levels => (layout.draw drawOuter levels).toList) (names :: outer) := by
  refine delimits_cons draw_cons_ne fun names' outer' r s h => ?_
  simp only [draw, String.toList_append, List.append_assoc, List.append_cancel_left_eq] at h
  obtain ⟨hnames, hbehind⟩ := layout.delimits_names names h
  obtain ⟨hlevels, hrest⟩ := delimits_around houter hbehind
  exact ⟨⟨hnames, hlevels⟩, List.append_cancel_left hrest⟩

end Layout

/-! ### On one line -/

/-- The names behind the first one, each with a comma in front. -/
theorem toList_intercalate_cons (name : String) (names : List String) :
    (", ".intercalate ((name :: names).map escapedQuote)).toList
      = (escapedQuote name).toList
        ++ names.flatMap fun other => ", ".toList ++ (escapedQuote other).toList := by
  induction names generalizing name with
  | nil =>
    rw [List.map_cons, List.map_nil, String.intercalate_singleton, List.flatMap_nil,
      List.append_nil]
  | cons other names ih =>
    rw [List.map_cons, List.map_cons, String.intercalate_cons_cons, ← List.map_cons,
      String.toList_append, String.toList_append, ih, List.flatMap_cons]
    simp only [List.append_assoc]

/-- Neither a comma nor a bracket is missed, since a name is in quotes. -/
theorem delimits_nameLine (names : List String) :
    Delimits (fun names => (", ".intercalate (names.map escapedQuote)
      ++ "], parent: ").toList) names := by
  have hother (other : String) :
      Delimits (fun other => ", ".toList ++ (escapedQuote other).toList) other :=
    (delimits_escapedQuote other).append_left _
  have hstop (other : String) (r s : List Char) :
      (", ".toList ++ (escapedQuote other).toList) ++ r ≠ "], parent: ".toList ++ s := by simp
  have hfirst (name : String) (r s : List Char) :
      (escapedQuote name).toList ++ r ≠ "], parent: ".toList ++ s := by
    simp [escapedQuote, Escaped.quoteList]
  have hne (name : String) (names : List String) (r s : List Char) :
      (", ".intercalate ((name :: names).map escapedQuote) ++ "], parent: ").toList ++ r
        ≠ "], parent: ".toList ++ s := by
    simpa only [String.toList_append, toList_intercalate_cons, List.append_assoc] using
      hfirst name _ s
  cases names with
  | nil => exact delimits_nil hne
  | cons name names =>
    refine delimits_cons hne fun name' names' r s h => ?_
    simp only [String.toList_append, toList_intercalate_cons, List.append_assoc] at h
    obtain ⟨hname, hothers⟩ := delimits_escapedQuote name h
    obtain ⟨hnames, hrest⟩ := delimits_flatMap_append hother hstop names
      (by simpa only [List.append_assoc] using hothers)
    exact ⟨⟨hname, hnames⟩, hrest⟩

/-- The layout of a picture on one line. -/
def onLine : Layout where
  start := "Env \x7b vars: ["
  names names := ", ".intercalate (names.map escapedQuote) ++ "], parent: "
  opening := "Some("
  closing := ")"
  stop := " \x7d"
  start_ne := by simp
  opening_ne := by simp
  delimits_names := delimits_nameLine

theorem line_eq_draw (levels : List (List String)) : line levels = onLine.draw line levels := by
  cases levels with
  | nil => rfl
  | cons names outer =>
    have hline : line (names :: outer) = "Env \x7b vars: [" ++ ", ".intercalate
        (names.map escapedQuote) ++ "], parent: " ++ onLine.around line outer ++ " \x7d" := by
      cases outer <;> rfl
    rw [hline]
    simp only [Layout.draw, onLine, String.append_assoc]

/-- **The levels can be read off their picture on one line.** -/
theorem delimits_line (levels : List (List String)) :
    Delimits (fun levels => (line levels).toList) levels := by
  have hline : line = onLine.draw line := funext line_eq_draw
  induction levels with
  | nil =>
    rw [hline]
    exact Layout.delimits_draw_nil
  | cons names outer ih =>
    rw [hline]
    exact Layout.delimits_draw_cons ih

/-! ### With a line for each name -/

theorem delimits_nameLines (margin : String) (names : List String) :
    Delimits (fun names => (nameLines margin names).toList) names := by
  let entry (name : String) : List Char :=
    (margin ++ "    ").toList ++ ((escapedQuote name).toList ++ ",\n".toList)
  have hentry (name : String) : Delimits entry name :=
    ((delimits_escapedQuote name).append_right _).append_left _
  have hstop (name : String) (r s : List Char) :
      entry name ++ r ≠ (margin ++ "]").toList ++ s := by
    simp [entry]
  have hlist (name : String) (names : List String) :
      (nameLines margin (name :: names)).toList = "[\n".toList
        ++ ((name :: names).flatMap entry ++ (margin ++ "]").toList) := by
    simp only [nameLines, entry, String.toList_append, String.toList_join, List.flatMap_map,
      List.append_assoc]
  have hne (name : String) (names : List String) (r s : List Char) :
      (nameLines margin (name :: names)).toList ++ r ≠ "[]".toList ++ s := by
    simp [nameLines]
  cases names with
  | nil => exact delimits_nil hne
  | cons name names =>
    refine delimits_cons hne fun name' names' r s h => ?_
    simp only [hlist] at h
    obtain ⟨hnames, hrest⟩ :=
      (delimits_flatMap_append hentry hstop (name :: names)).append_left _ h
    exact ⟨List.cons.inj hnames, hrest⟩

/-- The layout of a picture with a line for each name. -/
def onLines (margin : String) : Layout where
  start := "Env \x7b\n" ++ (margin ++ "    ") ++ "vars: "
  names names := nameLines (margin ++ "    ") names ++ ",\n" ++ (margin ++ "    ") ++ "parent: "
  opening := "Some(\n" ++ (margin ++ "    " ++ "    ")
  closing := ",\n" ++ (margin ++ "    ") ++ ")"
  stop := ",\n" ++ margin ++ "\x7d"
  start_ne := by simp
  opening_ne := by simp
  delimits_names ns := by
    have hlist := (delimits_nameLines (margin ++ "    ") ns).append_right
      (",\n" ++ (margin ++ "    ") ++ "parent: ").toList
    simpa only [String.toList_append, List.append_assoc] using hlist

theorem block_eq_draw (margin : String) (levels : List (List String)) :
    block margin levels = (onLines margin).draw (block (margin ++ "    " ++ "    ")) levels := by
  cases levels with
  | nil => rfl
  | cons names outer =>
    let inner := margin ++ "    "
    obtain ⟨around, hblock, haround⟩ : ∃ around,
        block margin (names :: outer) = "Env \x7b\n" ++ inner ++ "vars: " ++ nameLines inner names
          ++ ",\n" ++ inner ++ "parent: " ++ around ++ ",\n" ++ margin ++ "\x7d" ∧
        (onLines margin).around (block (inner ++ "    ")) outer = around := by
      cases outer with
      | nil => exact ⟨_, rfl, rfl⟩
      | cons names' outer =>
        exact ⟨_, rfl, by simp only [Layout.around, onLines, inner, String.append_assoc]⟩
    rw [hblock, Layout.draw, haround]
    simp only [onLines, inner, String.append_assoc]

/-- **The levels can be read off their picture with a line for each name.** -/
theorem delimits_block (margin : String) (levels : List (List String)) :
    Delimits (fun levels => (block margin levels).toList) levels := by
  have hblock (margin : String) := funext (block_eq_draw margin)
  induction levels generalizing margin with
  | nil =>
    rw [hblock]
    exact Layout.delimits_draw_nil
  | cons names outer ih =>
    rw [hblock]
    exact Layout.delimits_draw_cons (ih _)

end Picture

namespace Heap

/-! ### The names on each level -/

/-- There are as many levels from `env` on as from `env'` on in `heap'`, and on each the same names
are bound. -/
def SameNames (heap : Heap) (env : Env) (heap' : Heap) (env' : Env) : Prop :=
  List.Forall₂ (fun e e' => ∀ name, heap.isLocal e name = heap'.isLocal e' name)
    (heap.chain env) (heap'.chain env')

/-- The names of each scope come up in some order. -/
structure Enumerates (heap : Heap) (order : Env → List String) : Prop where
  /-- No name comes up twice. -/
  nodup : ∀ env, (order env).Nodup
  /-- The names that come up are those that the scope itself binds. -/
  mem_iff : ∀ env name, name ∈ order env ↔ heap.isLocal env name = true

/-- The names on each level from `env` on, sorted after they came up in some order. -/
def sortedLevels (heap : Heap) (order : Env → List String) (env : Env) : List (List String) :=
  (heap.chain env).map fun e => (order e).mergeSort

variable {heap heap' : Heap} {env env' : Env}

/-- The names of a scope are in strictly ascending order, so none of them is there twice. -/
theorem pairwise_names (heap : Heap) (env : Env) : (heap.names env).Pairwise (· < ·) := by
  rw [names]
  cases heap.scope? env with
  | none => exact .nil
  | some scope => exact Std.TreeMap.ordered_keys.imp fun h => compare_lt_iff_lt.1 h

theorem nodup_names (heap : Heap) (env : Env) : (heap.names env).Nodup :=
  (heap.pairwise_names env).imp ne_of_lt

theorem mem_names {name : String} : name ∈ heap.names env ↔ heap.isLocal env name = true := by
  rw [names, isLocal]
  cases heap.scope? env with
  | none => simp
  | some scope => exact Std.TreeMap.mem_keys.trans Std.TreeMap.contains_iff_mem.symm

theorem names_eq_names_iff :
    heap.names env = heap'.names env' ↔
      ∀ name, heap.isLocal env name = heap'.isLocal env' name := by
  constructor
  · intro h name
    rw [Bool.eq_iff_iff, ← mem_names, h, mem_names]
  · intro h
    refine (heap.pairwise_names env).eq_of_mem_iff (heap'.pairwise_names env') fun name => ?_
    rw [mem_names, mem_names, h name]

theorem levels_eq_levels_iff :
    heap.levels env = heap'.levels env' ↔ heap.SameNames env heap' env' := by
  rw [levels, levels, ← List.forall₂_eq_eq_eq, List.forall₂_map_left_iff,
    List.forall₂_map_right_iff, SameNames]
  simp only [names_eq_names_iff]

theorem picture_eq_picture_iff :
    heap.picture env = heap'.picture env' ↔ heap.SameNames env heap' env' := by
  rw [← levels_eq_levels_iff]
  constructor
  · intro h
    exact (Picture.delimits_line (heap.levels env)).eq (congrArg String.toList h)
  · exact congrArg Picture.line

theorem pictureBlock_eq_pictureBlock_iff :
    heap.pictureBlock env = heap'.pictureBlock env' ↔ heap.SameNames env heap' env' := by
  rw [← levels_eq_levels_iff]
  constructor
  · intro h
    exact (Picture.delimits_block "" (heap.levels env)).eq (congrArg String.toList h)
  · exact congrArg (Picture.block "")

/-! ### The order in which names come up -/

theorem enumerates_of_perm {order : Env → List String}
    (h : ∀ env, (order env).Perm (heap.names env)) : heap.Enumerates order :=
  ⟨fun env => (h env).nodup_iff.2 (heap.nodup_names env),
    fun env _ => (h env).mem_iff.trans mem_names⟩

/-- **Sorting makes up for the order in which names come up.** -/
theorem Enumerates.sortedLevels_eq {order : Env → List String} (h : heap.Enumerates order)
    (env : Env) : heap.sortedLevels order env = heap.levels env := by
  refine List.map_congr_left fun e _ => ?_
  have hsorted : (order e).mergeSort.Pairwise (· ≤ ·) :=
    List.pairwise_mergeSort' (· ≤ ·) (order e)
  have hnames : (heap.names e).Pairwise (· ≤ ·) := (heap.pairwise_names e).imp le_of_lt
  have hsame : (order e).Perm (heap.names e) := by
    rw [List.perm_ext_iff_of_nodup (h.nodup e) (heap.nodup_names e)]
    intro name
    rw [h.mem_iff, mem_names]
  exact ((List.mergeSort_perm ..).trans hsame).eq_of_pairwise (fun _ _ _ _ => le_antisymm)
    hsorted hnames

/-! ### The order in which names are bound -/

/-- Makes some bindings, one after the other. -/
def defineAll (heap : Heap) (bindings : List (Env × String × Value)) : Heap :=
  heap.performAll (bindings.map fun (env, name, value) => .define env name value)

theorem isSome_scope?_define (heap : Heap) (target : Env) (x : String) (v : Value) (e : Env) :
    ((heap.define target x v).2.scope? e).isSome = (heap.scope? e).isSome := by
  simpa using congrArg Option.isSome (heap.map_parent?_define target x v e)

/-- A binding adds its name to the scope it is made in, if that is there. -/
theorem isLocal_define_iff (heap : Heap) (target : Env) (x : String) (v : Value) (e : Env)
    (name : String) :
    (heap.define target x v).2.isLocal e name = true ↔
      heap.isLocal e name = true ∨ (heap.scope? e).isSome = true ∧ e = target ∧ name = x := by
  rw [isLocal_eq_isSome, isLocal_eq_isSome, getLocal?_define_eq]
  split
  · next hboth =>
    obtain ⟨rfl, rfl⟩ := hboth
    cases hscope : heap.scope? e with
    | none => simp [getLocal?, hscope]
    | some scope => simp
  · next hnot => simp [hnot]

theorem isLocal_defineAll_iff (heap : Heap) (bindings : List (Env × String × Value)) (e : Env)
    (name : String) :
    (heap.defineAll bindings).isLocal e name = true ↔
      heap.isLocal e name = true ∨
        (heap.scope? e).isSome = true ∧ ∃ v, (e, name, v) ∈ bindings := by
  induction bindings generalizing heap with
  | nil => simp [defineAll, performAll]
  | cons b bindings ih =>
    obtain ⟨target, x, v⟩ := b
    have hcons : heap.defineAll ((target, x, v) :: bindings)
        = (heap.define target x v).2.defineAll bindings := rfl
    rw [hcons, ih, isLocal_define_iff, isSome_scope?_define]
    simp only [List.mem_cons, Prod.mk.injEq]
    grind

theorem chain_defineAll (heap : Heap) (bindings : List (Env × String × Value)) (env : Env) :
    (heap.defineAll bindings).chain env = heap.chain env := by
  induction bindings generalizing heap with
  | nil => rfl
  | cons b bindings ih => exact (ih _).trans (heap.chain_define b.1 b.2.1 b.2.2 env)

/-- **Which names are bound** depends neither on the order in which they are, nor on their values,
nor on how often each is bound. -/
theorem sameNames_defineAll {bindings bindings' : List (Env × String × Value)}
    (h : ∀ e name, (∃ v, (e, name, v) ∈ bindings) ↔ ∃ v, (e, name, v) ∈ bindings')
    (heap : Heap) (env : Env) :
    (heap.defineAll bindings).SameNames env (heap.defineAll bindings') env := by
  rw [SameNames, chain_defineAll, chain_defineAll, List.forall₂_same]
  intro e _ name
  rw [Bool.eq_iff_iff, isLocal_defineAll_iff, isLocal_defineAll_iff, h e name]

theorem isLocal_ofList_iff (heap : Heap) (bindings : List (String × Value)) (name : String) :
    (heap.ofList bindings).2.isLocal (heap.ofList bindings).1 name = true ↔
      name ∈ bindings.map Prod.fst := by
  rw [isLocal_eq_isSome, getLocal?_ofList, List.lookup_isSome_iff]
  simp

/-- Scopes made from lists have the same picture if and only if the same names are in the lists. -/
theorem picture_ofList_eq_iff (heap heap' : Heap) (bindings bindings' : List (String × Value)) :
    (heap.ofList bindings).2.picture (heap.ofList bindings).1
        = (heap'.ofList bindings').2.picture (heap'.ofList bindings').1 ↔
      ∀ name, name ∈ bindings.map Prod.fst ↔ name ∈ bindings'.map Prod.fst := by
  have hchain (heap : Heap) (bindings : List (String × Value)) :
      (heap.ofList bindings).2.chain (heap.ofList bindings).1 = [(heap.ofList bindings).1] := by
    rw [chain_eq, ofList, scope?_alloc]
    rfl
  rw [picture_eq_picture_iff, SameNames, hchain, hchain, List.forall₂_cons,
    and_iff_left List.Forall₂.nil]
  refine forall_congr' fun name => ?_
  rw [Bool.eq_iff_iff, isLocal_ofList_iff, isLocal_ofList_iff]

end Heap

open Heap

/-- **A picture shows which names are bound on which level, and nothing else.** Two pictures of the
same form are equal if and only if there are as many levels in both and the same names on each. In a
picture every name that is bound on a level is listed once, in ascending order. The picture is the
same in whichever order the names of a scope come up before they are sorted, and it does not matter
either in which order they were bound, to which values, and whether more than once. -/
theorem scope_picture_canonical (heap heap' : Heap) (env env' : Env) :
    (heap.picture env = heap'.picture env' ↔ heap.SameNames env heap' env') ∧
      (heap.pictureBlock env = heap'.pictureBlock env' ↔ heap.SameNames env heap' env') ∧
      (∃ levels, heap.picture env = Picture.line levels ∧
        heap.pictureBlock env = Picture.block "" levels ∧
        List.Forall₂ (fun e names => names.Pairwise (· < ·) ∧
          ∀ name, name ∈ names ↔ heap.isLocal e name = true) (heap.chain env) levels) ∧
      (∀ order, heap.Enumerates order →
        heap.picture env = Picture.line (heap.sortedLevels order env) ∧
          heap.pictureBlock env = Picture.block "" (heap.sortedLevels order env)) ∧
      ∀ bindings bindings' : List (Env × String × Value),
        (∀ e name, (∃ v, (e, name, v) ∈ bindings) ↔ ∃ v, (e, name, v) ∈ bindings') →
          (heap.defineAll bindings).picture env = (heap.defineAll bindings').picture env ∧
            (heap.defineAll bindings).pictureBlock env
              = (heap.defineAll bindings').pictureBlock env := by
  refine ⟨picture_eq_picture_iff, pictureBlock_eq_pictureBlock_iff,
    ⟨heap.levels env, rfl, rfl, ?_⟩, fun order horder => ?_, fun bindings bindings' h => ?_⟩
  · rw [levels, List.forall₂_map_right_iff, List.forall₂_same]
    exact fun e _ => ⟨heap.pairwise_names e, fun name => mem_names⟩
  · rw [horder.sortedLevels_eq]
    exact ⟨rfl, rfl⟩
  · have hsame := sameNames_defineAll h heap env
    exact ⟨picture_eq_picture_iff.2 hsame, pictureBlock_eq_pictureBlock_iff.2 hsame⟩

/-- A name that looks like the middle of a list of names, and outer names that come up in descending
order. -/
theorem scope_picture_canonical_quoted :
    let heap := Heap.empty.performAll [.ofList [("b", .integer 1), ("a", .integer 2)],
      .extend ⟨0⟩, .define ⟨1⟩ "x\", \"y" (.bool true)]
    let order (e : Env) : List String := (heap.names e).reverse
    heap.Enumerates order ∧ order ⟨0⟩ = ["b", "a"] ∧
      heap.picture ⟨1⟩ = Picture.line (heap.sortedLevels order ⟨1⟩) ∧
      heap.picture ⟨1⟩ = "Env \x7b vars: [\"x\\\", \\\"y\"], parent: "
        ++ "Some(Env \x7b vars: [\"a\", \"b\"], parent: None \x7d) \x7d" := by
  intro heap order
  have enumerates : heap.Enumerates order := enumerates_of_perm fun _ => List.reverse_perm _
  have hlevels : heap.levels ⟨1⟩ = [["x\", \"y"], ["a", "b"]] := by cbv
  obtain ⟨-, -, -, hsorted, -⟩ := scope_picture_canonical heap heap ⟨1⟩ ⟨1⟩
  refine ⟨enumerates, by cbv, (hsorted order enumerates).1, ?_⟩
  rw [picture, hlevels]
  rfl

end HostedLisp
