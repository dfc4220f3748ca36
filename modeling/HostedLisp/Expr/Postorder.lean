import HostedLisp.Expr.Basic

/-!
# The calls of an expression in the order of their completion

A call is complete once its arguments are, so the calls inside the arguments of a call come before
it, those of an earlier argument before those of a later one.
-/

namespace HostedLisp

namespace Expr

mutual

/-- The calls of an expression in postorder, each with its head and its number of arguments. -/
def postorder : Expr → List (String × Nat)
  | .atom _ => []
  | .call function arguments => postorderAll arguments ++ [(function, arguments.length)]

/-- The calls of some expressions, one expression after the other. -/
def postorderAll : List Expr → List (String × Nat)
  | [] => []
  | e :: es => e.postorder ++ postorderAll es

end

end Expr

end HostedLisp
