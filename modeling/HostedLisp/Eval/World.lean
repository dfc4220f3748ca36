import HostedLisp.Event
import HostedLisp.Scope.Heap

/-!
# The world that expressions are evaluated in

Expressions can only call procedures, and what a procedure does is decided by the host. The world is
all that a procedure may read and change: the heap of scopes, those in use included, and whatever
data the host keeps for itself, of any type `σ`. A procedure fails with an error of the host's own
type `ε`.

A host is an arbitrary function, so a procedure always finishes, but nothing else is promised of it.

What comes of evaluating something is an answer, the world that is left, and the procedures that
were applied, in order.
-/

namespace HostedLisp

/-- All that procedures may read and change. -/
structure World (σ : Type) where
  /-- The scopes. -/
  heap : Heap
  /-- What the host keeps for itself. -/
  data : σ

/-- What came of doing something in a world. -/
structure Outcome (σ ε α : Type) where
  /-- The result, or why there is none. -/
  answer : Except ε α
  /-- The world as it was left. -/
  world : World σ
  /-- What happened on the way. -/
  log : Log

/-- What the procedures do: applies one to values in a world. -/
abbrev Host (σ ε : Type) := Proc → List Value → World σ → Outcome σ ε Value

/-- Why an expression has no value. -/
inductive EvalError (ε : Type) where
  /-- A name is bound in no scope. -/
  | unbound (name : String)
  /-- The head of a call is bound to something that is no procedure. -/
  | notAProc (name : String)
  /-- A procedure failed, for the reason that `cause` gives. -/
  | host (cause : ε)
  deriving DecidableEq, Inhabited

/-- The text of an error, given that of the host's errors. -/
def EvalError.message {ε : Type} (causeMessage : ε → String) : EvalError ε → String
  | .unbound name => "Unknown variable '" ++ name ++ "'"
  | .notAProc name => "'" ++ name ++ "' is not a procedure!"
  | .host cause => causeMessage cause

/-! ### Evaluations -/

/-- One use of a procedure. -/
structure Application where
  /-- The head of the call that used it. -/
  function : String
  /-- The procedure. -/
  proc : Proc
  /-- The values it was applied to. -/
  arguments : List Value
  /-- What happened while the host was at it. -/
  log : Log

/-- The outcome of evaluating something. -/
structure Evaluation (σ ε α : Type) where
  /-- The value, or why there is none. -/
  answer : Except (EvalError ε) α
  /-- The world as it was left. -/
  world : World σ
  /-- The procedures that were applied, in order. -/
  applications : Array Application

/-- What happened during an evaluation: each application is announced and then made. -/
def Evaluation.log {σ ε α : Type} (evaluation : Evaluation σ ε α) : Log :=
  evaluation.applications.foldl (fun log a =>
    log.push (.applying a.function a.arguments.length) ++ a.log) ∅

/-! ### Names that are looked up -/

namespace Heap

variable {ε : Type}

/-- The value of a variable. -/
def value (heap : Heap) (env : Env) (name : String) : Except (EvalError ε) Value :=
  match heap.get? env name with
  | some value => .ok value
  | none => .error (.unbound name)

/-- The procedure that the head of a call names. -/
def procedure (heap : Heap) (env : Env) (name : String) : Except (EvalError ε) Proc :=
  match heap.get? env name with
  | some (.proc p) => .ok p
  | some _ => .error (.notAProc name)
  | none => .error (.unbound name)

variable {heap : Heap} {env : Env} {name : String} {cause : EvalError ε}

theorem value_eq_value_iff {heap' : Heap} {env' : Env} :
    (heap.value env name : Except (EvalError ε) Value) = heap'.value env' name ↔
      heap.get? env name = heap'.get? env' name := by
  rw [value, value]
  cases heap.get? env name <;> cases heap'.get? env' name <;> simp

theorem value_eq_error_iff :
    heap.value env name = .error cause ↔ cause = .unbound name ∧ heap.get? env name = none := by
  rw [value]
  cases heap.get? env name with
  | none => simp [eq_comm]
  | some value => simp

theorem procedure_eq_ok_iff {p : Proc} :
    (heap.procedure env name : Except (EvalError ε) Proc) = .ok p ↔
      heap.get? env name = some (.proc p) := by
  rw [procedure]
  cases heap.get? env name with
  | none => simp
  | some value => cases value <;> simp

theorem procedure_eq_error_iff :
    heap.procedure env name = .error cause ↔
      (cause = .unbound name ∧ heap.get? env name = none) ∨
        cause = .notAProc name ∧
          ∃ value, heap.get? env name = some value ∧ ∀ p, value ≠ .proc p := by
  rw [procedure]
  cases heap.get? env name with
  | none => simp [eq_comm]
  | some value => cases value <;> simp [eq_comm]

end Heap

end HostedLisp
