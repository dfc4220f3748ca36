import HostedLisp.Eval.Steady
import HostedLisp.Library.Host

/-!
# Pure procedures of the library

Most builtins compute a value and do nothing else. A procedure that comes down to one of them is
pure, as long as the data say so: what a procedure does is written there.

## Main definitions

* `Library.Builtin.isPure` — the builtins that only compute

## Main results

* `Library.pure_host` — a procedure that comes down to one of them is pure
-/

namespace HostedLisp

namespace Library

/-- Whether a builtin only computes. The others take notes, make or call procedures, reach into the
scopes, or run programs. -/
def Builtin.isPure : Builtin → Bool
  | .note | .apply | .curry | .define | .set | .get | .eval | .scope => false
  | _ => true

/-- A builtin that only computes gives the same in every world, and leaves that world. -/
theorem exists_perform_eq {b : Builtin} (h : b.isPure) (host : Host Data Error)
    (arguments : List Value) :
    ∃ answer log, ∀ world, perform host b arguments world = ⟨answer, world, log⟩ := by
  cases b with
  | note | apply | curry | define | set | get | eval | scope => cases h
  | «show» =>
    match arguments with
    | [text] =>
      cases htext : text.asString with
      | ok text => exact ⟨_, _, fun world => by rw [perform, showExpr, withName, htext]⟩
      | error cause =>
        refine ⟨.error (.value cause), ∅, fun world => ?_⟩
        rw [perform, showExpr, withName, htext]
        rfl
    | [] | _ :: _ :: _ => exact ⟨_, _, fun _ => rfl⟩
  | add | mul | sub | less | equal | not | cond | concat | str | type | len | id | fail =>
    exact ⟨_, _, fun _ => rfl⟩

/-- **A procedure that comes down to a builtin that only computes is pure**, as long as the data
stay what they are. -/
theorem pure_host {levels : Nat} {data : Data} {p : Proc}
    (h : ∀ routine ∈ data.routine? p, ∀ values, (routine.unfold values).1.isPure) :
    (host levels).Pure data p := by
  have hsame (values : List Value) : ∃ answer log, ∀ heap,
      host levels p values ⟨heap, data⟩ = ⟨answer, ⟨heap, data⟩, log⟩ := by
    cases levels with
    | zero => exact ⟨_, _, fun _ => rfl⟩
    | succ levels =>
      cases hroutine : data.routine? p with
      | none => exact ⟨_, _, fun heap => by rw [host, hroutine, unchanged]⟩
      | some routine =>
        obtain ⟨answer, log, hperform⟩ :=
          exists_perform_eq (h routine hroutine values) (host levels) (routine.unfold values).2
        refine ⟨answer, log, fun heap => ?_⟩
        rw [host, hroutine]
        exact hperform ⟨heap, data⟩
  constructor
  · intro values first second
    obtain ⟨answer, log, h⟩ := hsame values
    rw [h, h]
  · intro values heap
    obtain ⟨answer, log, h⟩ := hsame values
    rw [h]

end Library

end HostedLisp
