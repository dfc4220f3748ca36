import HostedLisp.Text.Escaped
import HostedLisp.Text.Quoted

/-!
# Values

What expressions evaluate to. Procedures are made by the host and are opaque: a value holds only the
identity of a procedure, so two procedures are equal when they are the same one, whatever they do.
-/

namespace HostedLisp

/-- The identity of a procedure of the host. -/
structure Proc where
  /-- The number that the host knows the procedure by. -/
  id : Nat
  deriving DecidableEq, Inhabited

/-- The value of an expression. -/
inductive Value where
  /-- An integer of 64 bits. -/
  | integer (value : Int64)
  /-- A text. -/
  | string (content : String)
  /-- A truth value. -/
  | bool (value : Bool)
  /-- A procedure. -/
  | proc (p : Proc)
  deriving DecidableEq, Inhabited

/-- Why a value cannot be used as one of a certain type. -/
inductive ValueError where
  /-- An integer was needed. -/
  | notAnInteger
  /-- A text was needed. -/
  | notAString
  /-- A truth value was needed. -/
  | notABool
  /-- A procedure was needed. -/
  | notAProc
  deriving DecidableEq, Inhabited

/-- The text of a type error. -/
def ValueError.message : ValueError → String
  | .notAnInteger => "Not an Integer!"
  | .notAString => "Not a String!"
  | .notABool => "Not a Bool!"
  | .notAProc => "Not a Procedure!"

namespace Value

/-- The text that shows a value. Values other than procedures and negative integers are shown the
way a program writes them. -/
protected def toString : Value → String
  | .integer value => toString value.toInt
  | .string content => quote content
  | .bool value => if value then "true" else "false"
  | .proc _ => "#<procedure>"

instance : ToString Value := ⟨Value.toString⟩

/-- The form of a value in listings, with its type and every character visible. -/
def listing : Value → String
  | .integer value => "Integer(" ++ toString value.toInt ++ ")"
  | .string content => "String(" ++ escapedQuote content ++ ")"
  | .bool value => "Bool(" ++ (if value then "true" else "false") ++ ")"
  | .proc _ => "Proc(Proc)"

/-- The integer that a value is. -/
def asInteger : Value → Except ValueError Int64
  | .integer value => .ok value
  | _ => .error .notAnInteger

/-- The text that a value is. -/
def asString : Value → Except ValueError String
  | .string content => .ok content
  | _ => .error .notAString

/-- The truth value that a value is. -/
def asBool : Value → Except ValueError Bool
  | .bool value => .ok value
  | _ => .error .notABool

/-- The procedure that a value is. -/
def asProc : Value → Except ValueError Proc
  | .proc p => .ok p
  | _ => .error .notAProc

end Value

end HostedLisp
