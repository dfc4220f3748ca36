import HostedLisp.Expr.Basic
import HostedLisp.Token.Basic

/-!
# Expressions as tokens

The tokens that an expression is written with. Truth values are written as names, so the tokens of
an expression determine it only if none of its names is the name of a truth value; and they can all
be written only if its integers have no sign and its names follow the rules for names.

## Main definitions

* `Expr.tokens` — the tokens of an expression, from the left to the right
* `Expr.Every` — every atom and every head of a call has a property
* `Expr.Plain`, `Expr.Canonical` — no name of a truth value is used as another name; everything
  can be written as it is
-/

namespace HostedLisp

/-- The name that a truth value is written as. -/
def boolName (b : Bool) : String := if b then "true" else "false"

/-- The token of an atom. -/
def Atom.token : Atom → Token
  | .integer value => .integer value
  | .string content => .string content
  | .bool value => .identifier (boolName value)
  | .var name => .identifier name

/-- A name is an initial character of names and any further characters of names. -/
def IsName (name : String) : Prop :=
  ∃ c cs, name.toList = c :: cs ∧ startsName c ∧ ∀ d ∈ cs, continuesName d

namespace Expr

mutual

/-- The tokens of an expression. -/
def tokens : Expr → List Token
  | .atom a => [a.token]
  | .call function arguments =>
    .opening :: .identifier function :: (tokensAll arguments ++ [.closing])

/-- The tokens of some expressions one after the other. -/
def tokensAll : List Expr → List Token
  | [] => []
  | e :: es => e.tokens ++ tokensAll es

end

theorem tokensAll_append (es fs : List Expr) :
    tokensAll (es ++ fs) = tokensAll es ++ tokensAll fs := by
  induction es with
  | nil => rfl
  | cons e es ih => simp [tokensAll, ih]

mutual

/-- Every atom has the property `atomOk`, and every head of a call the property `headOk`. -/
def Every (atomOk : Atom → Prop) (headOk : String → Prop) : Expr → Prop
  | .atom a => atomOk a
  | .call function arguments => headOk function ∧ EveryAll atomOk headOk arguments

/-- The same of all expressions of a list. -/
def EveryAll (atomOk : Atom → Prop) (headOk : String → Prop) : List Expr → Prop
  | [] => True
  | e :: es => e.Every atomOk headOk ∧ EveryAll atomOk headOk es

end

theorem everyAll_iff {atomOk : Atom → Prop} {headOk : String → Prop} {es : List Expr} :
    EveryAll atomOk headOk es ↔ ∀ e ∈ es, e.Every atomOk headOk := by
  induction es with
  | nil => simp [EveryAll]
  | cons e es ih => simp [EveryAll, ih]

theorem every_call_iff {atomOk : Atom → Prop} {headOk : String → Prop} {function : String}
    {arguments : List Expr} :
    (call function arguments).Every atomOk headOk ↔
      headOk function ∧ ∀ e ∈ arguments, e.Every atomOk headOk := by
  rw [Every, everyAll_iff]

/-- A name that is not the name of a truth value. -/
def PlainName (name : String) : Prop := name ≠ "true" ∧ name ≠ "false"

/-- No variable and no head of a call has the name of a truth value. -/
def Plain (e : Expr) : Prop :=
  e.Every (fun | .var name => PlainName name | _ => True) PlainName

/-- All integers are without a sign, and all variables and heads of calls are names but not those of
truth values. -/
def Canonical (e : Expr) : Prop :=
  e.Every
    (fun
      | .integer value => 0 ≤ value.toInt
      | .var name => IsName name ∧ PlainName name
      | _ => True)
    (fun name => IsName name ∧ PlainName name)

end Expr

end HostedLisp
