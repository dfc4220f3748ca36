import Mathlib
import HostedLisp.Proofs.Eval.Script
import HostedLisp.Proofs.Eval.Steady
import HostedLisp.Proofs.Form.RoundTrip
import HostedLisp.Proofs.Program.Eager

/-!
# Shown values as programs

The text that shows a value is a text like any other and can be run as a program. Strings, truth
values and integers without a sign are shown the way programs write them, so such a program has the
value that was shown. The sign of an integer is where this ends: a `-` starts a name and digits go
on with it, so the text of a negative integer is a variable, and what comes of it is up to the scope
it is looked up in. A procedure is shown as a text that no token starts.

What a text denotes is a single atom in all cases but the last, and no two values denote the same
atom. So no two values are shown by the same text, procedures apart, which all look alike.

## Main definitions

* `Value.IsLiteral` — programs write the value the way it is shown
* `Value.shownAtom?` — what the text that shows a value denotes

## Main results

* `Value.parseScript_toString` — the text that shows a value is read as what it denotes
* `Value.eq_of_toString_eq` — different values are shown by different texts
* `runProgram_of_single` — a program of one form has the value of that form
* `running_shown_value` — what comes of running the text that shows a value
-/

namespace HostedLisp

variable {σ ε : Type}

/-! ### What the text of a value denotes -/

namespace Value

/-- The values that programs write the way they are shown. -/
def IsLiteral : Value → Prop
  | .integer value => 0 ≤ value.toInt
  | .string _ | .bool _ => True
  | .proc _ => False

/-- What the text that shows a value denotes in a program: a literal, or a variable with this text
as its name where the text begins with a sign. The text that shows a procedure denotes nothing. -/
def shownAtom? : Value → Option Atom
  | .integer value =>
    some (if 0 ≤ value.toInt then .integer value else .var (toString value.toInt))
  | .string content => some (.string content)
  | .bool value => some (.bool value)
  | .proc _ => none

variable {v w : Value} {a : Atom}

theorem exists_shownAtom? (h : ∀ p, v ≠ .proc p) : ∃ a, v.shownAtom? = some a := by
  cases v with
  | integer _ | string _ | bool _ => exact ⟨_, rfl⟩
  | proc p => exact absurd rfl (h p)

theorem shownAtom?_integer_of_neg {n : Int64} (h : n.toInt < 0) :
    (integer n).shownAtom? = some (.var (toString n.toInt)) := by
  rw [shownAtom?, if_neg (by omega)]

/-- What is denoted tells which value was shown, as the text of an integer tells which it is. -/
theorem eq_of_shownAtom? (hv : v.shownAtom? = some a) (hw : w.shownAtom? = some a) : v = w := by
  have htext (m n : Int64) (h : toString m.toInt = toString n.toInt) : m = n :=
    Int64.toInt_inj.1 (Int.repr_inj.1 h)
  cases v <;> cases w <;> grind [shownAtom?]

theorem toString_eq_render (h : v.shownAtom? = some a) : toString v = a.render := by
  cases v with
  | integer n =>
    obtain rfl := Option.some.inj h
    split <;> rfl
  | string _ | bool _ =>
    cases h
    rfl
  | proc p => cases h

theorem toList_toString_of_neg {n : Int} (h : n < 0) :
    (toString n).toList = '-' :: Nat.toDigits 10 (-n).toNat := by
  rw [Int.toString_eq_repr, Int.repr_eq_if, if_neg (by omega), String.toList_append,
    Nat.toList_repr]
  rfl

/-- The sign of an integer starts a name, which its digits go on with. -/
theorem isName_toString_of_neg {n : Int} (h : n < 0) : IsName (toString n) := by
  refine ⟨'-', Nat.toDigits 10 (-n).toNat, toList_toString_of_neg h, by decide, fun d hd => ?_⟩
  have hdigit : d.isDigit := Nat.isDigit_of_mem_toDigits (by decide) (by decide) hd
  rw [continuesName, hdigit, Bool.or_true]

/-- A sign is not the first letter of a truth value. -/
theorem plainName_toString_of_neg {n : Int} (h : n < 0) : Expr.PlainName (toString n) := by
  constructor <;> intro hname <;>
    · have hlist := congrArg String.toList hname
      rw [toList_toString_of_neg h] at hlist
      cases hlist

theorem canonical_shownAtom? (h : v.shownAtom? = some a) : (Expr.atom a).Canonical := by
  cases v with
  | integer n =>
    obtain rfl := Option.some.inj h
    by_cases hn : 0 ≤ n.toInt
    · rw [if_pos hn]
      exact hn
    · rw [if_neg hn]
      have hneg : n.toInt < 0 := Int.not_le.1 hn
      exact ⟨isName_toString_of_neg hneg, plainName_toString_of_neg hneg⟩
  | string _ | bool _ =>
    cases h
    trivial
  | proc p => cases h

end Value

/-- A canonical expression is printed as a program of one form. -/
theorem parseScript_toString {e : Expr} (h : e.Canonical) : parseScript (toString e) = .ok [e] := by
  obtain ⟨hwritable, plain⟩ := e.canonical_iff.1 h
  have hreads := written_iff_reads (c := .ofString (toString e)).1 (written_toString hwritable)
  rw [parseScript, Cursor.result_readForms_eq_ok_iff]
  simp only [Expr.tokensAll, List.append_nil, List.forall_mem_singleton]
  exact ⟨hreads, plain⟩

theorem Value.parseScript_toString {v : Value} {a : Atom} (h : v.shownAtom? = some a) :
    parseScript (toString v) = .ok [.atom a] := by
  have hread := HostedLisp.parseScript_toString (v.canonical_shownAtom? h)
  rw [v.toString_eq_render h]
  exact hread

/-- **Different values are shown by different texts**, if they are no procedures: what is read tells
them apart. -/
theorem Value.eq_of_toString_eq {v w : Value} (hv : ∀ p, v ≠ .proc p) (hw : ∀ p, w ≠ .proc p)
    (h : toString v = toString w) : v = w := by
  obtain ⟨a, ha⟩ := exists_shownAtom? hv
  obtain ⟨b, hb⟩ := exists_shownAtom? hw
  have hread : Except.ok [Expr.atom a] = Except.ok [Expr.atom b] :=
    (parseScript_toString ha).symm.trans (h ▸ parseScript_toString hb)
  obtain rfl : a = b := by
    cases hread
    rfl
  exact eq_of_shownAtom? ha hb

/-! ### Running the text of a value -/

/-- **A program of one form has the value of that form.** -/
theorem runProgram_of_single (host : Host σ ε) (env : Env) (world : World σ) {source : String}
    {e : Expr} (h : parseScript source = .ok [e]) :
    (runProgram host env source world).answer
        = ((eval host env e world).answer.map some).mapError .eval ∧
      (runProgram host env source world).world = (eval host env e world).world := by
  obtain ⟨hanswer, hworld⟩ := runProgram_verdict host env source world
  obtain ⟨herror, hforms⟩ := FormRun.result_eq_ok_iff.1 h
  have hscript : evalScript host env [e] world
      = (eval host env e world).andThen fun value world => ⟨.ok (some value), world, #[]⟩ :=
    evalScript_cons host env e [] world
  rw [hanswer, hworld, hforms, hscript]
  cases heval : (eval host env e world).answer with
  | error cause =>
    rw [Evaluation.andThen_eq_error heval]
    exact ⟨by simp [FormRun.verdict, Except.map, Except.mapError], rfl⟩
  | ok value =>
    rw [Evaluation.andThen_of_ok heval]
    exact ⟨by simp [FormRun.verdict, herror, Except.map, Except.mapError, Evaluation.after], rfl⟩

section

variable (host : Host σ ε) (env : Env) (world : World σ)

/-- The text of a value comes to what the atom comes to that it denotes, and changes nothing. -/
theorem runProgram_shown {v : Value} {a : Atom} (h : v.shownAtom? = some a) :
    (runProgram host env (toString v) world).answer
        = ((Steady.eval host env world (.atom a)).map some).mapError .eval ∧
      (runProgram host env (toString v) world).world = world := by
  obtain ⟨hanswer, hworld⟩ := runProgram_of_single host env world (v.parseScript_toString h)
  -- An atom calls no procedures.
  have calls : (Expr.atom a).CallsPure host env world := trivial
  obtain ⟨hvalue, hsame⟩ := eval_of_callsPure calls
  exact ⟨by rw [hanswer, hvalue], hworld.trans hsame⟩

/-- The text of a negative integer is looked up like any other name. -/
theorem runProgram_negative {n : Int64} (h : n.toInt < 0) :
    (runProgram host env (toString (Value.integer n)) world).answer
      = match world.heap.get? env (toString (Value.integer n)) with
        | some v => .ok (some v)
        | none => .error (.eval (.unbound (toString (Value.integer n)))) := by
  have htext : toString (Value.integer n) = toString n.toInt := rfl
  rw [(runProgram_shown host env world (Value.shownAtom?_integer_of_neg h)).1, Steady.eval,
    Heap.value, htext]
  cases world.heap.get? env (toString n.toInt) <;> rfl

theorem runProgram_literal {v : Value} (h : v.IsLiteral) :
    (runProgram host env (toString v) world).answer = .ok (some v) := by
  obtain ⟨a, hatom, hvalue⟩ : ∃ a, v.shownAtom? = some a ∧
      Steady.eval host env world (.atom a) = .ok v := by
    cases v with
    | integer n => exact ⟨.integer n, congrArg some (if_pos h), rfl⟩
    | string content => exact ⟨.string content, rfl, rfl⟩
    | bool b => exact ⟨.bool b, rfl, rfl⟩
    | proc p => exact h.elim
  rw [(runProgram_shown host env world hatom).1, hvalue]
  rfl

/-- No token starts with the first character of the text that shows procedures. -/
theorem runProgram_proc (p : Proc) :
    (runProgram host env (toString (Value.proc p)) world).answer
        = .error (.parse (.lex (.unexpectedChar '#' 35 .origin))) ∧
      (runProgram host env (toString (Value.proc p)) world).world = world := by
  have hform : (Cursor.ofString "#<procedure>").readForm.answer
      = .error (.lex (.unexpectedChar '#' 35 .origin)) := by cbv
  have hrun := runForms_of_error host env hform none ∅ world
  exact ⟨congrArg Outcome.answer hrun, congrArg Outcome.world hrun⟩

/-- **The text that shows a value, run as a program.** Nothing in the world changes. A string, a
truth value or an integer without a sign comes out as it was. The text of a negative integer is a
variable, which has the value that its name is bound to, if it is. The text of a procedure cannot be
read, for its first character. And different values have different texts, if they are no
procedures. -/
theorem running_shown_value :
    (∀ v : Value, (runProgram host env (toString v) world).world = world) ∧
      (∀ v : Value, v.IsLiteral →
        (runProgram host env (toString v) world).answer = .ok (some v)) ∧
      (∀ n : Int64, n.toInt < 0 →
        parseScript (toString (Value.integer n)) = .ok [.atom (.var (toString (Value.integer n)))] ∧
          (runProgram host env (toString (Value.integer n)) world).answer
            = match world.heap.get? env (toString (Value.integer n)) with
              | some v => .ok (some v)
              | none => .error (.eval (.unbound (toString (Value.integer n))))) ∧
      (∀ p : Proc, (runProgram host env (toString (Value.proc p)) world).answer
        = .error (.parse (.lex (.unexpectedChar '#' 35 ⟨0, 0⟩)))) ∧
      ∀ v w : Value, (∀ p, v ≠ .proc p) → (∀ p, w ≠ .proc p) → toString v = toString w → v = w := by
  refine ⟨fun v => ?_, fun v hv => runProgram_literal host env world hv, fun n hn => ?_,
    fun p => (runProgram_proc host env world p).1, fun v w => Value.eq_of_toString_eq⟩
  · cases hatom : v.shownAtom? with
    | some a => exact (runProgram_shown host env world hatom).2
    | none =>
      cases v with
      | proc p => exact (runProgram_proc host env world p).2
      | integer _ | string _ | bool _ => cases hatom
  · have hatom := Value.shownAtom?_integer_of_neg hn
    exact ⟨Value.parseScript_toString hatom, runProgram_negative host env world hn⟩

end

end HostedLisp
