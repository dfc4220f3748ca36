import HostedLisp.Expr.Print
import HostedLisp.Library.Pure

/-!
# The library as a host

Every builtin is performed in the world it is called in. Builtins that call procedures or run
programs do so through a host that is handed to them, and the library is a host that hands a host of
one level less to its builtins. The number of levels is bounded, so every procedure finishes.
-/

namespace HostedLisp

namespace Library

/-- What a procedure of the library leads to. -/
abbrev Performed := Outcome Data Error Value

/-- Leaves the world as it is. -/
def unchanged (world : World Data) (result : Result) : Performed := ⟨result, world, ∅⟩

/-- The value of an optional value: false stands for none. -/
def orFalse (value? : Option Value) : Value := value?.getD (.bool false)

/-- Performs a procedure that needs a name, and as the case may be a value for it. -/
def withName (world : World Data) (name : Value) (use : String → Performed) : Performed :=
  match name.asString with
  | .ok name => use name
  | .error cause => unchanged world (.error (.value cause))

/-- Performs a procedure that needs a procedure and arguments for it. -/
def withProc (world : World Data) (who : String) (arguments : List Value)
    (use : Proc → List Value → Performed) : Performed :=
  match arguments with
  | [] => unchanged world (.error (.text (who ++ " needs a procedure")))
  | p :: others =>
    match p.asProc with
    | .ok p => use p others
    | .error cause => unchanged world (.error (.value cause))

/-! ### Scopes and notes -/

/-- Binds a name through `bind`, a way to bind names in the current scope, and gives the replaced
value. -/
def bindName (bind : Heap → Env → String → Value → Option Value × Heap) (world : World Data)
    (arguments : List Value) : Performed :=
  match arguments with
  | [name, value] =>
    withName world name fun name =>
      let (old?, heap) := bind world.heap world.data.current name value
      unchanged { world with heap } (.ok (orFalse old?))
  | _ => unchanged world (.error (wrongCount 2 arguments))

/-- The value of a name in the current scope. -/
def getName (world : World Data) (arguments : List Value) : Performed :=
  match arguments with
  | [name] =>
    withName world name fun name =>
      unchanged world ((world.heap.value world.data.current name).mapError .eval)
  | _ => unchanged world (.error (wrongCount 1 arguments))

/-- Takes a note of some values and gives the last of them. -/
def takeNote (world : World Data) (arguments : List Value) : Performed :=
  let data := { world.data with notes := world.data.notes.push (joined arguments) }
  unchanged { world with data } (.ok (orFalse arguments.getLast?))

/-! ### Programs -/

/-- The expression that a text denotes, printed. -/
def showExpr (world : World Data) (arguments : List Value) : Performed :=
  match arguments with
  | [text] =>
    withName world text fun text =>
      let form := (Cursor.ofString text).readOnlyForm
      ⟨(form.answer.mapError .parse).map fun e => .string (toString e), world, .chunk form.events⟩
  | _ => unchanged world (.error (wrongCount 1 arguments))

/-- Runs a program in the scope `env`, which is the current one meanwhile. -/
def runIn (host : Host Data Error) (env : Env) (source : String) (world : World Data) :
    Performed :=
  let running := world.data.running
  let outcome := runProgram host env source
    { world with data := { world.data with running := env :: running } }
  let data := { outcome.world.data with running }
  ⟨(outcome.answer.mapError .program).map orFalse, { outcome.world with data }, outcome.log⟩

/-- Runs a text as a program, in the current scope or in a new one inside it. -/
def runText (host : Host Data Error) (inside : Bool) (world : World Data)
    (arguments : List Value) : Performed :=
  match arguments with
  | [source] =>
    withName world source fun source =>
      let current := world.data.current
      if inside then
        let (env, heap) := world.heap.extend current
        runIn host env source { world with heap }
      else runIn host current source world
  | _ => unchanged world (.error (wrongCount 1 arguments))

/-! ### Procedures on procedures -/

/-- Makes a procedure that calls `p` with `bound` in front of its own arguments. -/
def bindArguments (world : World Data) (p : Proc) (bound : List Value) : Performed :=
  match world.data.routine? p with
  | none => unchanged world (.error (.text "unknown procedure"))
  | some routine =>
    let (p, data) := world.data.fresh (.curried routine bound)
    unchanged { world with data } (.ok (.proc p))

/-- Performs a builtin. Procedures that it calls are applied by `host`. -/
def perform (host : Host Data Error) (b : Builtin) (arguments : List Value)
    (world : World Data) : Performed :=
  match b with
  | .add => unchanged world ((accumulate (· + ·) 0 arguments).map .integer)
  | .mul => unchanged world ((accumulate (· * ·) 1 arguments).map .integer)
  | .sub => unchanged world (subtract arguments)
  | .less => unchanged world (increasing arguments)
  | .equal => unchanged world (.ok (.bool (neighbours (fun v w => v = w) arguments)))
  | .not => unchanged world (negate arguments)
  | .cond => unchanged world (choose arguments)
  | .concat => unchanged world (concatenate arguments)
  | .str => unchanged world (.ok (.string (joined arguments)))
  | .show => showExpr world arguments
  | .type => unchanged world (typeName arguments)
  | .len => unchanged world (.ok (.integer (Int64.ofNat arguments.length)))
  | .id => unchanged world (identity arguments)
  | .note => takeNote world arguments
  | .fail => unchanged world (.error (.text (joined arguments)))
  | .apply => withProc world "apply" arguments fun p others => host p others world
  | .curry => withProc world "curry" arguments (bindArguments world)
  | .define => bindName Heap.define world arguments
  | .set => bindName Heap.set world arguments
  | .get => getName world arguments
  | .eval => runText host false world arguments
  | .scope => runText host true world arguments

/-- The library as a host in which procedures may call each other over at most `levels` levels. -/
def host : (levels : Nat) → Host Data Error
  | 0, _, _, world => unchanged world (.error (.text "procedures are nested too deeply"))
  | levels + 1, p, arguments, world =>
    match world.data.routine? p with
    | none => unchanged world (.error (.text "unknown procedure"))
    | some routine =>
      let (b, arguments) := routine.unfold arguments
      perform (host levels) b arguments world

end Library

end HostedLisp
