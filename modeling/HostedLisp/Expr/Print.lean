import HostedLisp.Expr.Basic
import HostedLisp.Text.Quoted

/-!
# Printing expressions

Expressions are printed in the form in which programs are written: a call in parentheses with single
blanks between its parts, strings in quotes. A tree that a program text can denote is printed as a
text that denotes it.

## Main results

* `Expr.toString_eq` — the loop prints what the recursive definition `Expr.render` says
-/

namespace HostedLisp

/-- The written form of an atom. -/
def Atom.render : Atom → String
  | .integer value => toString value.toInt
  | .string content => quote content
  | .bool value => if value then "true" else "false"
  | .var name => name

namespace Expr

mutual

/-- The written form of an expression. -/
def render : Expr → String
  | .atom a => a.render
  | .call function arguments => "(" ++ function ++ renderAll arguments ++ ")"

/-- The written form of some arguments, with a blank before each. -/
def renderAll : List Expr → String
  | [] => ""
  | e :: es => " " ++ e.render ++ renderAll es

end

/-- What some open calls still lack: one for each closing parenthesis and two for each node, since a
node may open one call more. -/
private def lacking : List (List Expr) → Nat
  | [] => 0
  | es :: outer => 2 * nodesAll es + 1 + lacking outer

/-- Completes the text `out`, behind which some calls still lack their last arguments and their
closing parentheses, the innermost call first. -/
def renderOnto (out : String) : List (List Expr) → String
  | [] => out
  | [] :: outer => renderOnto (out ++ ")") outer
  | (.atom a :: es) :: outer => renderOnto (out ++ " " ++ a.render) (es :: outer)
  | (.call function arguments :: es) :: outer =>
    renderOnto (out ++ " " ++ "(" ++ function) (arguments :: es :: outer)
termination_by calls => lacking calls
decreasing_by all_goals simp only [lacking, nodesAll, nodes]; omega

/-- The written form of an expression, in one visit. -/
protected def toString : Expr → String
  | .atom a => a.render
  | .call function arguments => renderOnto ("(" ++ function) [arguments]

instance : ToString Expr := ⟨Expr.toString⟩

private theorem renderOnto_eq (out : String) (calls : List (List Expr)) :
    renderOnto out calls = out ++ String.join (calls.map fun es => renderAll es ++ ")") := by
  fun_induction renderOnto out calls <;>
    simp_all [renderAll, render, String.append_assoc, String.join_cons, -String.reduceAppend]

/-- One visit of an expression prints its written form. -/
theorem toString_eq (e : Expr) : e.toString = e.render := by
  cases e <;> simp [Expr.toString, render, renderOnto_eq, String.append_assoc, String.join_cons]

end Expr

end HostedLisp
