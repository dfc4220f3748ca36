import HostedLisp.Program

/-!
# A library of procedures

The language itself has no procedures. This library is a host with a fixed set of them: arithmetic,
comparison, texts, procedures on procedures, and procedures that reach into the scopes and the
interpreter itself.

Here are the names of the procedures, the ways in which they fail, and the data the library keeps:
the scopes that programs are being run in, the notes taken, and what every procedure does. A
procedure does what a builtin does, possibly with some leading arguments that are bound already.
-/

namespace HostedLisp

namespace Library

/-- The procedures that the library starts with. -/
inductive Builtin where
  | add | mul | sub | less | equal | not | cond | concat | str | show | type | len | id | note
  | fail | apply | curry | define | set | get | eval | scope
  deriving DecidableEq, Inhabited

namespace Builtin

/-- All builtins. -/
def all : List Builtin :=
  [.add, .mul, .sub, .less, .equal, .not, .cond, .concat, .str, .show, .type, .len, .id, .note,
    .fail, .apply, .curry, .define, .set, .get, .eval, .scope]

/-- The name that a builtin is bound to. -/
def name : Builtin → String
  | .add => "+"
  | .mul => "*"
  | .sub => "-"
  | .less => "<"
  | .equal => "="
  | .not => "not"
  | .cond => "if"
  | .concat => "concat"
  | .str => "str"
  | .show => "show"
  | .type => "type"
  | .len => "len"
  | .id => "id"
  | .note => "note"
  | .fail => "fail"
  | .apply => "apply"
  | .curry => "curry"
  | .define => "def"
  | .set => "set!"
  | .get => "get"
  | .eval => "eval"
  | .scope => "scope"

end Builtin

/-! ### Errors -/

/-- Why a procedure of the library fails. -/
inductive Error where
  /-- An argument has the wrong type. -/
  | value (cause : ValueError)
  /-- A name has no value. -/
  | eval (cause : EvalError Error)
  /-- A text is no expression. -/
  | parse (cause : ParseError)
  /-- A program that a procedure ran has no value. -/
  | program (cause : ProgramError Error)
  /-- Any other reason, in words. -/
  | text (message : String)

/-- The text of an error; an error that contains another one has the text of that. -/
def Error.message : Error → String
  | .value cause => cause.message
  | .eval (.host cause) | .program (.eval (.host cause)) => cause.message
  | .eval cause | .program (.eval cause) => cause.message fun _ => ""
  | .parse cause | .program (.parse cause) => cause.message
  | .program (.read cause) => cause.message
  | .text message => message

/-! ### Data -/

/-- What a procedure does. -/
inductive Routine where
  /-- It performs a builtin. -/
  | builtin (b : Builtin)
  /-- It does the same as `inner` with the arguments `bound` in front of its own. -/
  | curried (inner : Routine) (bound : List Value)

/-- The builtin that a procedure comes down to, and all arguments of it. -/
def Routine.unfold : Routine → List Value → Builtin × List Value
  | .builtin b, arguments => (b, arguments)
  | .curried inner bound, arguments => inner.unfold (bound ++ arguments)

/-- The data that the library keeps. -/
structure Data where
  /-- The scopes that programs are being run in, the innermost run first. -/
  running : List Env
  /-- The notes taken so far. -/
  notes : Array String
  /-- What the procedures do. A procedure is known by its index here. -/
  routines : Array Routine

namespace Data

/-- The data at the start: all builtins and nothing else. -/
def start : Data := ⟨[], #[], (Builtin.all.map Routine.builtin).toArray⟩

/-- Makes a procedure that differs from all others. -/
def fresh (data : Data) (routine : Routine) : Proc × Data :=
  (⟨data.routines.size⟩, { data with routines := data.routines.push routine })

/-- What a procedure does. -/
def routine? (data : Data) (p : Proc) : Option Routine := data.routines[p.id]?

/-- The scope that procedures reach into. -/
def current (data : Data) : Env := data.running.headD ⟨0⟩

end Data

/-- The procedure that does what a builtin does. -/
def Builtin.proc (b : Builtin) : Proc := ⟨all.idxOf b⟩

/-- The bindings of all builtins. -/
def bindings : List (String × Value) := Builtin.all.map fun b => (b.name, .proc b.proc)

end Library

end HostedLisp
