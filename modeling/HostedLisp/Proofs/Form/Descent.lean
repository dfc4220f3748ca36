import Mathlib
import HostedLisp.Form.Descent
import HostedLisp.Proofs.Form.CallStack

/-!
# Reading calls by descent and with open calls

Descent reads a call by recursion and keeps the calls around it in the recursion itself; the reader
that runs keeps them as data. Calls around the one that is read are a promise of what happens when
that one has been read: it is added to the innermost of them, which is refused where it would become
a head, and reading goes on there. `Cursor.resume` is this promise, and reading inside open calls is
reading the innermost one by descent and then keeping the promise of the others.

This holds for texts of any kind, so both readers also fail at the same place and for the same
reason.

## Main definitions

* `Descent.andThen` — descent in sequence
* `Cursor.resume` — what open calls do with an expression

## Main results

* `Descent.readCall_eq`, `Descent.readArguments_eq` — the rules of descent
* `Cursor.reached_readInside_empty`, `Cursor.reached_readInside_head` — reading inside open calls
* `Cursor.readCall_eq_descent` — the two readers agree
-/

namespace HostedLisp

namespace Descent

/-- Goes on with the expression that was read, if there is one, from the place reached. -/
def andThen (reached : Except ParseError Expr × Cursor)
    (next : Expr → Cursor → Except ParseError Expr × Cursor) : Except ParseError Expr × Cursor :=
  match reached with
  | (.error e, c) => (.error e, c)
  | (.ok e, c) => next e c

theorem readCall_eq (c : Cursor) : (readCall c).1 = match c.readNext with
    | (.error e, c') => (.error (.lex e), c')
    | (.ok none, c') => (.error (.callTarget c'.pos), c')
    | (.ok (some .opening), c') =>
      andThen (readCall c').1 fun _ c'' => (.error (.callTarget c''.pos), c'')
    | (.ok (some (.identifier name)), c') =>
      match Atom.ofName name with
      | .var function => (readArguments function [] c').1
      | _ => (.error (.callTarget c'.pos), c')
    | (.ok (some _), c') => (.error (.callTarget c'.pos), c') := by
  rw [readCall]
  split
  · next h => conv => rhs; rw [h]
  · next h => conv => rhs; rw [h]
  · next t c' h =>
    conv => rhs; rw [h]
    cases t with
    | opening =>
      dsimp only
      obtain ⟨⟨answer, c''⟩, le⟩ := readCall c'
      cases answer <;> rfl
    | identifier name =>
      simp only
      cases Atom.ofName name <;> rfl
    | closing | integer _ | string _ => rfl

theorem readArguments_eq (function : String) (arguments : List Expr) (c : Cursor) :
    (readArguments function arguments c).1 = match c.readNext with
    | (.error e, c') => (.error (.lex e), c')
    | (.ok none, c') => (.error (.unexpectedEnd function c'.pos), c')
    | (.ok (some .closing), c') => (.ok (.call function arguments.reverse), c')
    | (.ok (some .opening), c') =>
      andThen (readCall c').1 fun e c'' => (readArguments function (e :: arguments) c'').1
    | (.ok (some (.integer value)), c') =>
      (readArguments function (.atom (.integer value) :: arguments) c').1
    | (.ok (some (.string content)), c') =>
      (readArguments function (.atom (.string content) :: arguments) c').1
    | (.ok (some (.identifier name)), c') =>
      (readArguments function (.atom (.ofName name) :: arguments) c').1 := by
  rw [readArguments]
  split
  · next h => conv => rhs; rw [h]
  · next h => conv => rhs; rw [h]
  · next t c' h =>
    conv => rhs; rw [h]
    cases t with
    | opening =>
      dsimp only
      obtain ⟨⟨answer, c''⟩, le⟩ := readCall c'
      cases answer <;> rfl
    | closing | integer _ | string _ | identifier _ => rfl

theorem exists_of_andThen {reached : Except ParseError Expr × Cursor}
    {next : Expr → Cursor → Except ParseError Expr × Cursor} {e : Expr}
    (h : (andThen reached next).1 = .ok e) :
    ∃ e' c', reached = (.ok e', c') ∧ (next e' c').1 = .ok e := by
  obtain ⟨answer, c'⟩ := reached
  cases answer with
  | error cause => cases h
  | ok e' => exact ⟨e', c', rfl, h⟩

theorem eq_call_of_readArguments {function : String} {arguments : List Expr} {c : Cursor}
    {e : Expr} (h : (readArguments function arguments c).1.1 = .ok e) :
    ∃ arguments, e = .call function arguments := by
  rw [readArguments_eq] at h
  match hnext : c.readNext with
  | (.error _, _) | (.ok none, _) =>
    rw [hnext] at h
    cases h
  | (.ok (some .closing), c') =>
    rw [hnext] at h
    cases h
    exact ⟨_, rfl⟩
  | (.ok (some .opening), c') =>
    have hless := Cursor.length_readNext_lt hnext
    rw [hnext] at h
    obtain ⟨e', c'', hcall, hrest⟩ := exists_of_andThen h
    have hle : c''.unread.length ≤ c'.unread.length := by simpa [hcall] using (readCall c').2
    exact eq_call_of_readArguments hrest
  | (.ok (some (.integer _)), c') | (.ok (some (.string _)), c')
  | (.ok (some (.identifier _)), c') =>
    have hless := Cursor.length_readNext_lt hnext
    rw [hnext] at h
    exact eq_call_of_readArguments h
termination_by c.unread.length

/-- What is read as a call is one, so it never is the head of another. -/
theorem eq_call_of_readCall {c : Cursor} {e : Expr} (h : (readCall c).1.1 = .ok e) :
    ∃ function arguments, e = .call function arguments := by
  rw [readCall_eq] at h
  match hnext : c.readNext with
  | (.error _, _) | (.ok none, _) | (.ok (some .closing), _) | (.ok (some (.integer _)), _)
  | (.ok (some (.string _)), _) =>
    rw [hnext] at h
    cases h
  | (.ok (some .opening), c') =>
    rw [hnext] at h
    obtain ⟨_, _, _, hrefused⟩ := exists_of_andThen h
    cases hrefused
  | (.ok (some (.identifier name)), c') =>
    rw [hnext] at h
    dsimp only at h
    split at h
    · exact ⟨_, eq_call_of_readArguments h⟩
    · cases h

end Descent

namespace Cursor

/-- Hands an expression to the calls around it and reads on inside them. Without any it is what was
to be read. -/
def resume (outer : List OpenCall) (e : Expr) (c : Cursor) : Except ParseError Expr × Cursor :=
  match outer with
  | [] => (.ok e, c)
  | call :: outer =>
    match call.add? e with
    | none => (.error (.callTarget c.pos), c)
    | some call => (c.readInside ⟨call, outer⟩ #[]).reached

mutual

/-- **Behind an opening parenthesis the call is read by descent**, and then what is around it. -/
theorem reached_readInside_empty (outer : List OpenCall) (c : Cursor) :
    (c.readInside ⟨.empty, outer⟩ #[]).reached
      = Descent.andThen (Descent.readCall c).1 (resume outer) := by
  rw [Descent.readCall_eq]
  match h : c.readNext with
  | (.error _, _) =>
    rw [readInside_of_error h]
    rfl
  | (.ok none, _) =>
    rw [readInside_of_end h]
    rfl
  | (.ok (some .opening), c') =>
    have hless := length_readNext_lt h
    have hinner := reached_readInside_empty (.empty :: outer) c'
    rw [reached_readInside_of_token h]
    refine hinner.trans ?_
    dsimp only
    -- The inner call is read to its end, and only then refused as a head.
    match hcall : (Descent.readCall c').1 with
    | (.error _, _) => rfl
    | (.ok e, c'') =>
      obtain ⟨_, _, rfl⟩ := Descent.eq_call_of_readCall (congrArg Prod.fst hcall)
      rfl
  | (.ok (some .closing), _) | (.ok (some (.integer _)), _) | (.ok (some (.string _)), _) =>
    rw [reached_readInside_of_token h]
    rfl
  | (.ok (some (.identifier name)), c') =>
    have hless := length_readNext_lt h
    rw [reached_readInside_of_token h]
    simp only [OpenCalls.feed?]
    cases Atom.ofName name with
    | var function => exact reached_readInside_head function [] outer c'
    | integer _ | string _ | bool _ => rfl
termination_by c.unread.length

/-- **Behind the head of a call its arguments are read by descent**, and then what is around it. -/
theorem reached_readInside_head (function : String) (arguments : List Expr) (outer : List OpenCall)
    (c : Cursor) :
    (c.readInside ⟨⟨some function, arguments⟩, outer⟩ #[]).reached
      = Descent.andThen (Descent.readArguments function arguments c).1 (resume outer) := by
  rw [Descent.readArguments_eq]
  match h : c.readNext with
  | (.error _, _) =>
    rw [readInside_of_error h]
    rfl
  | (.ok none, _) =>
    rw [readInside_of_end h]
    rfl
  | (.ok (some .opening), c') =>
    have hless := length_readNext_lt h
    have hinner := reached_readInside_empty (⟨some function, arguments⟩ :: outer) c'
    rw [reached_readInside_of_token h]
    refine hinner.trans ?_
    dsimp only
    match hcall : (Descent.readCall c').1 with
    | (.error _, _) => rfl
    | (.ok e, c'') =>
      have hle : c''.unread.length ≤ c'.unread.length := by
        simpa [hcall] using (Descent.readCall c').2
      exact reached_readInside_head function (e :: arguments) outer c''
  | (.ok (some .closing), _) =>
    rw [reached_readInside_of_token h]
    cases outer with
    | nil => rfl
    | cons call outer =>
      rw [OpenCalls.feed?_closing]
      simp only [Descent.andThen, resume]
      cases call.add? (.call function arguments.reverse) <;> rfl
  | (.ok (some (.integer _)), c') | (.ok (some (.string _)), c')
  | (.ok (some (.identifier _)), c') =>
    have hless := length_readNext_lt h
    rw [reached_readInside_of_token h]
    exact reached_readInside_head function _ outer c'
termination_by c.unread.length

end

/-- Behind an opening parenthesis nothing is around the call, so there is no promise to keep. -/
theorem reached_readInside_start (events : Array Event) (c : Cursor) :
    (c.readInside .start events).reached = (Descent.readCall c).1 := by
  rw [reached_readInside, OpenCalls.start, reached_readInside_empty]
  obtain ⟨⟨answer, c'⟩, -⟩ := Descent.readCall c
  cases answer <;> rfl

theorem reached_readItem (c : Cursor) : c.readItem.reached = Descent.readItem c := by
  rw [Descent.readItem, readItem]
  obtain ⟨answer, c'⟩ := c.readNext
  cases answer with
  | error _ => rfl
  | ok token? =>
    cases token? with
    | none => rfl
    | some token =>
      cases token with
      | opening =>
        have hcall := reached_readInside_start #[.read .opening] c'
        exact congrArg (fun r => (r.1.map (some ∘ Item.expr), r.2)) hcall
      | closing | integer _ | string _ | identifier _ => rfl

/-- **The two readers agree**, on calls and on single items: they give the same tree or the same
error, and stop at the same place. On a plain stack the same is read, no stack without calls is ever
met, and no closing parenthesis is refused inside a call. -/
theorem readCall_eq_descent (c : Cursor) :
    c.readCall.reached = (Descent.readCall c).1 ∧
      c.readItem.reached = Descent.readItem c ∧
      CallStack.read [.empty] c = c.readCall.reached ∧
      (∀ stack c', CallStack.Reaches [.empty] c stack c' → stack ≠ []) ∧
      ∀ pos, c.readCall.answer ≠ .error (.unexpectedClosing pos) := by
  refine ⟨reached_readInside_start #[] c, reached_readItem c,
    CallStack.read_toList .start #[] c, ?_, CallStack.answer_readInside_ne .start #[] c⟩
  intro stack c' hreaches
  exact CallStack.ne_nil_of_reaches hreaches (by simp)

/-- With the argument `(g` of the call of `f` still open, two calls are on the stack. -/
theorem readCall_eq_descent_inner :
    CallStack.Reaches [.empty] (ofString "f (g") [⟨some "g", []⟩, ⟨some "f", []⟩] ⟨[], 4, ⟨0, 4⟩⟩ ∧
      [⟨some "g", []⟩, ⟨some "f", []⟩] ≠ ([] : List OpenCall) ∧
      (ofString "f (g").readCall.answer = .error (.unexpectedEnd "g" ⟨0, 4⟩) := by
  have hhead : (ofString "f (g").readNext
      = (.ok (some (.identifier "f")), ⟨" (g".toList, 1, ⟨0, 1⟩⟩) := by cbv
  have hopening : (⟨" (g".toList, 1, ⟨0, 1⟩⟩ : Cursor).readNext
      = (.ok (some .opening), ⟨['g'], 3, ⟨0, 3⟩⟩) := by cbv
  have hinner : (⟨['g'], 3, ⟨0, 3⟩⟩ : Cursor).readNext
      = (.ok (some (.identifier "g")), ⟨[], 4, ⟨0, 4⟩⟩) := by cbv
  have hreaches : CallStack.Reaches [.empty] (ofString "f (g") [⟨some "g", []⟩, ⟨some "f", []⟩]
      ⟨[], 4, ⟨0, 4⟩⟩ :=
    .turn hhead (by cbv) (.turn hopening (by cbv) (.turn hinner (by cbv) .refl))
  exact ⟨hreaches, (readCall_eq_descent _).2.2.2.1 _ _ hreaches, by cbv⟩

end Cursor

end HostedLisp
