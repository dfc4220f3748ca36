import HostedLisp.Library.Basic

/-!
# Procedures without effects

The procedures of the library that only compute a value from their arguments.
-/

namespace HostedLisp

namespace Library

/-- What a procedure without effects gives. -/
abbrev Result := Except Error Value

/-- Takes a value of a certain type, or fails. -/
def typed {α : Type} : Except ValueError α → Except Error α
  | .ok a => .ok a
  | .error cause => .error (.value cause)

/-- The error of a call with another number of arguments than the `expected` one. -/
def wrongCount (expected : Nat) (arguments : List Value) : Error :=
  .text ("expected " ++ toString expected ++ " argument(s), got " ++ toString arguments.length)

/-- The texts that show some values, with blanks between them. -/
def joined (values : List Value) : String := " ".intercalate (values.map toString)

/-! ### Arithmetic -/

/-- An integer of 64 bits, if `n` is one. -/
def checked (n : Int) : Except Error Int64 :=
  if Int64.minValue.toInt ≤ n ∧ n ≤ Int64.maxValue.toInt then .ok (.ofInt n)
  else .error (.text "integer overflow")

/-- Combines a total with integers from the left to the right. Each is first checked to be one, and
then the total is checked to fit. -/
def accumulate (op : Int → Int → Int) (total : Int64) (arguments : List Value) :
    Except Error Int64 :=
  arguments.foldlM (fun total v => do
    let n ← typed v.asInteger
    checked (op total.toInt n.toInt)) total

/-- The difference of the first argument and all others. -/
def subtract : List Value → Result
  | [] => .error (.text "- needs at least one argument")
  | first :: others => do
    let total ← typed first.asInteger
    return .integer (← accumulate (· - ·) total others)

/-! ### Comparison -/

/-- Whether all neighbours are related. -/
def neighbours {α : Type} (related : α → α → Bool) (as : List α) : Bool :=
  (as.zip as.tail).all fun (a, b) => related a b

/-- Whether some integers increase strictly. -/
def increasing (arguments : List Value) : Result := do
  let ns ← arguments.mapM fun v => typed v.asInteger
  return .bool (neighbours (fun m n => m.toInt < n.toInt) ns)

/-- The other truth value. -/
def negate : List Value → Result
  | [v] => do return .bool !(← typed v.asBool)
  | arguments => .error (wrongCount 1 arguments)

/-- The second or the third argument, as the first one says. -/
def choose : List Value → Result
  | [condition, yes, no] => do return if ← typed condition.asBool then yes else no
  | arguments => .error (wrongCount 3 arguments)

/-! ### Other values -/

/-- Texts one after the other. -/
def concatenate (arguments : List Value) : Result := do
  return .string (String.join (← arguments.mapM fun v => typed v.asString))

/-- The name of the type of a value. -/
def typeName : List Value → Result
  | [.integer _] => .ok (.string "integer")
  | [.string _] => .ok (.string "string")
  | [.bool _] => .ok (.string "bool")
  | [.proc _] => .ok (.string "proc")
  | arguments => .error (wrongCount 1 arguments)

/-- A value itself. -/
def identity : List Value → Result
  | [v] => .ok v
  | arguments => .error (wrongCount 1 arguments)

end Library

end HostedLisp
