import HostedLisp.Expr.Tokens

/-!
# Names in expressions, and expressions with a hole

The names that occur in an expression are those of its variables and the heads of its calls. The
head of a call is a name and no expression, so what can be put in the place of something else inside
an expression is the expression itself or an argument of one of its calls. `Context` is such a
place: the expression without what stands there.

## Main definitions

* `Expr.EveryName`, `Expr.EveryHead` — properties of the names that occur, and of the heads of calls
* `Context`, `Context.fill` — an expression with a hole; the expression that has another one there
-/

namespace HostedLisp

namespace Expr

variable {p q : String → Prop} {e : Expr}

/-- Every name that occurs has the property `p`: those of the variables and the heads of calls. -/
def EveryName (p : String → Prop) (e : Expr) : Prop :=
  e.Every (fun | .var name => p name | _ => True) p

/-- Every head of a call has the property `p`. -/
def EveryHead (p : String → Prop) (e : Expr) : Prop := e.Every (fun _ => True) p

theorem everyName_call_iff {function : String} {arguments : List Expr} :
    (call function arguments).EveryName p ↔ p function ∧ ∀ e ∈ arguments, e.EveryName p :=
  every_call_iff

theorem everyHead_call_iff {function : String} {arguments : List Expr} :
    (call function arguments).EveryHead p ↔ p function ∧ ∀ e ∈ arguments, e.EveryHead p :=
  every_call_iff

theorem Every.imp {atomOk atomOk' : Atom → Prop} {headOk headOk' : String → Prop}
    (h : e.Every atomOk headOk) (hatom : ∀ a, atomOk a → atomOk' a)
    (hhead : ∀ name, headOk name → headOk' name) : e.Every atomOk' headOk' := by
  induction e with
  | atom a => exact hatom a h
  | call function arguments ih =>
    obtain ⟨hfunction, harguments⟩ := every_call_iff.1 h
    exact every_call_iff.2 ⟨hhead function hfunction, fun e he => ih e he (harguments e he)⟩

theorem Every.and {atomOk atomOk' : Atom → Prop} {headOk headOk' : String → Prop}
    (h : e.Every atomOk headOk) (h' : e.Every atomOk' headOk') :
    e.Every (fun a => atomOk a ∧ atomOk' a) (fun name => headOk name ∧ headOk' name) := by
  induction e with
  | atom a => exact ⟨h, h'⟩
  | call function arguments ih =>
    obtain ⟨hfunction, harguments⟩ := every_call_iff.1 h
    obtain ⟨hfunction', harguments'⟩ := every_call_iff.1 h'
    exact every_call_iff.2 ⟨⟨hfunction, hfunction'⟩, fun e he =>
      ih e he (harguments e he) (harguments' e he)⟩

theorem EveryName.imp (h : e.EveryName p) (himp : ∀ name, p name → q name) : e.EveryName q :=
  Every.imp h (fun | .var name => himp name | .integer _ | .string _ | .bool _ => id) himp

theorem EveryHead.imp (h : e.EveryHead p) (himp : ∀ name, p name → q name) : e.EveryHead q :=
  Every.imp h (fun _ => id) himp

theorem EveryName.and (h : e.EveryName p) (h' : e.EveryName q) :
    e.EveryName fun name => p name ∧ q name :=
  (Every.and h h').imp (fun | .var _ => id | .integer _ | .string _ | .bool _ => fun _ => trivial)
    fun _ => id

theorem EveryHead.and (h : e.EveryHead p) (h' : e.EveryHead q) :
    e.EveryHead fun name => p name ∧ q name :=
  (Every.and h h').imp (fun _ _ => trivial) fun _ => id

theorem every_of_forall {atomOk : Atom → Prop} {headOk : String → Prop}
    (hatom : ∀ a, atomOk a) (hhead : ∀ name, headOk name) (e : Expr) : e.Every atomOk headOk := by
  induction e with
  | atom a => exact hatom a
  | call function arguments ih => exact every_call_iff.2 ⟨hhead function, ih⟩

theorem everyName_of_forall (h : ∀ name, p name) (e : Expr) : e.EveryName p :=
  every_of_forall (fun | .var name => h name | .integer _ | .string _ | .bool _ => trivial) h e

theorem everyHead_of_forall (h : ∀ name, p name) (e : Expr) : e.EveryHead p :=
  every_of_forall (fun _ => trivial) h e

theorem EveryName.everyHead (h : e.EveryName p) : e.EveryHead p :=
  Every.imp h (fun _ _ => trivial) fun _ => id

end Expr

/-- An expression with a hole in it, which is in no other place than that of an argument, if it is
not all of the expression. -/
inductive Context where
  /-- Nothing but the hole. -/
  | hole
  /-- A call with the hole in one of its arguments. -/
  | argument (function : String) (before : List Expr) (inner : Context) (behind : List Expr)

namespace Context

/-- The expression that has `e` in the place of the hole. -/
def fill : Context → Expr → Expr
  | .hole, e => e
  | .argument function before inner behind, e =>
    .call function (before ++ inner.fill e :: behind)

variable {atomOk : Atom → Prop} {headOk : String → Prop} {e : Expr}

/-- What holds of everything in an expression holds of everything in its parts. -/
theorem every_of_every_fill (context : Context) (h : (context.fill e).Every atomOk headOk) :
    e.Every atomOk headOk := by
  induction context with
  | hole => exact h
  | argument function before inner behind ih =>
    exact ih ((Expr.every_call_iff.1 h).2 _ (by simp))

/-- A part may be replaced by another one of which the same holds. -/
theorem every_fill (context : Context) {e' : Expr} (h : (context.fill e).Every atomOk headOk)
    (he' : e'.Every atomOk headOk) : (context.fill e').Every atomOk headOk := by
  induction context with
  | hole => exact he'
  | argument function before inner behind ih =>
    obtain ⟨hfunction, hothers⟩ := Expr.every_call_iff.1 h
    rw [List.forall_mem_append, List.forall_mem_cons] at hothers
    obtain ⟨hbefore, hinner, hbehind⟩ := hothers
    refine Expr.every_call_iff.2 ⟨hfunction, ?_⟩
    rw [List.forall_mem_append, List.forall_mem_cons]
    exact ⟨hbefore, ih hinner, hbehind⟩

end Context

end HostedLisp
