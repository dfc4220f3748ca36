import HostedLisp.Scope.Heap
import HostedLisp.Text.Escaped

/-!
# Pictures of scopes

A picture of a scope lists the names bound in it and in the scopes around it, level by level from
the inside to the outside, without their values. The names of a level are in ascending order of
their code points. There is a picture on one line and one with a line for every name.
-/

namespace HostedLisp

namespace Heap

/-- The names that the scope `env` itself binds, in ascending order. -/
def names (heap : Heap) (env : Env) : List String :=
  match heap.scope? env with
  | none => []
  | some scope => scope.vars.keys

/-- The names that are bound on each level from `env` to the outermost scope. -/
def levels (heap : Heap) (env : Env) : List (List String) := (heap.chain env).map heap.names

end Heap

namespace Picture

/-- The picture of some levels on one line. -/
def line : List (List String) → String
  | [] => "None"
  | names :: outer =>
    "Env \x7b vars: [" ++ ", ".intercalate (names.map escapedQuote) ++ "], parent: "
      ++ (match outer with
        | [] => "None"
        | _ => "Some(" ++ line outer ++ ")")
      ++ " \x7d"

/-- The list of names of a level with a line for each, where `margin` is put before the last
line. -/
def nameLines (margin : String) (names : List String) : String :=
  match names with
  | [] => "[]"
  | _ => "[\n" ++ String.join (names.map fun name =>
      margin ++ "    " ++ escapedQuote name ++ ",\n") ++ margin ++ "]"

/-- The picture of some levels with a line for each name, where `margin` is put before each line but
the first. -/
def block (margin : String) : List (List String) → String
  | [] => "None"
  | names :: outer =>
    let inner := margin ++ "    "
    "Env \x7b\n" ++ inner ++ "vars: " ++ nameLines inner names ++ ",\n" ++ inner ++ "parent: "
      ++ (match outer with
        | [] => "None"
        | _ =>
          let around := inner ++ "    "
          "Some(\n" ++ around ++ block around outer ++ ",\n" ++ inner ++ ")")
      ++ ",\n" ++ margin ++ "\x7d"

end Picture

/-- The picture of the scopes from `env` on, on one line. -/
def Heap.picture (heap : Heap) (env : Env) : String := Picture.line (heap.levels env)

/-- The picture of the scopes from `env` on, with a line for each name. -/
def Heap.pictureBlock (heap : Heap) (env : Env) : String := Picture.block "" (heap.levels env)

end HostedLisp
