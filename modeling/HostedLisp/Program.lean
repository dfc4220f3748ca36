import HostedLisp.Eval.Machine
import HostedLisp.Form.Read
import HostedLisp.Scope.Picture
import HostedLisp.Text.ByteStream

/-!
# Running programs

A program is a text. Its forms are read and evaluated in turn: a form is read only once the form
before it has a value, so the first error, of whichever kind, ends the program, and nothing behind
it is looked at. The value of a program is that of its last form.

An interpreter runs programs one after the other in the same scope, where they find the bindings
that earlier ones made.
-/

namespace HostedLisp

/-- Why a program has no value. -/
inductive ProgramError (ε : Type) where
  /-- A form cannot be read. -/
  | parse (cause : ParseError)
  /-- A form cannot be evaluated. -/
  | eval (cause : EvalError ε)
  /-- The text of the program cannot be read. -/
  | read (cause : ReadError)
  deriving DecidableEq, Inhabited

/-- The text of an error, given that of the host's errors. -/
def ProgramError.message {ε : Type} (causeMessage : ε → String) : ProgramError ε → String
  | .parse cause => cause.message
  | .eval cause => cause.message causeMessage
  | .read cause => cause.message

variable {σ ε : Type}

/-- Runs the part of a program that a cursor stands before. The last value so far is `last?`. -/
def runForms (host : Host σ ε) (env : Env) (last? : Option Value) (log : Log)
    (c : Cursor) (world : World σ) : Outcome σ (ProgramError ε) (Option Value) :=
  let form := c.readForm
  let log := log ++ .chunk form.events
  match _h : form.answer with
  | .error cause => ⟨.error (.parse cause), world, log⟩
  | .ok none => ⟨.ok last?, world, log⟩
  | .ok (some e) =>
    let evaluation := eval host env e world
    let log := log ++ evaluation.log
    match evaluation.answer with
    | .error cause => ⟨.error (.eval cause), evaluation.world, log⟩
    | .ok value =>
      runForms host env (some value) (log.push (.evaluated value)) form.cursor evaluation.world
termination_by c.unread.length
decreasing_by exact Cursor.length_readForm_lt _h

/-- Runs a program in the scope `env`. A program without forms has no value. -/
def runProgram (host : Host σ ε) (env : Env) (source : String) (world : World σ) :
    Outcome σ (ProgramError ε) (Option Value) :=
  runForms host env none ∅ (.ofString source) world

/-- Something that runs programs in a scope of its own. -/
structure Interpreter where
  /-- The scope. -/
  env : Env

namespace Interpreter

/-- An interpreter with a new scope in which nothing is bound. -/
def fresh (heap : Heap) : Interpreter × Heap :=
  let (env, heap) := heap.new
  (⟨env⟩, heap)

/-- The picture of an interpreter is that of its scopes. -/
def picture (interpreter : Interpreter) (heap : Heap) : String :=
  "Interpreter \x7b env: " ++ heap.picture interpreter.env ++ " \x7d"

/-- Runs a program. -/
def eval (interpreter : Interpreter) (host : Host σ ε) (source : String) (world : World σ) :
    Outcome σ (ProgramError ε) (Option Value) :=
  runProgram host interpreter.env source world

/-- Runs a program that arrives as a stream of bytes, which is read to its end first. -/
def run (interpreter : Interpreter) (host : Host σ ε) (stream : List Chunk) (world : World σ) :
    Outcome σ (ProgramError ε) (Option Value) :=
  match ByteStream.readText stream with
  | .ok source => interpreter.eval host source world
  | .error cause => ⟨.error (.read cause), world, ∅⟩

end Interpreter

end HostedLisp
