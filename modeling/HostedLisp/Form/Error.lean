import HostedLisp.Token.Basic

/-!
# Errors of reading forms

The ways in which a sequence of tokens fails to be a sequence of expressions. Every position is the
one just behind the token that caused the error, or the end of the text where a token is missing.
-/

namespace HostedLisp

/-- Why a text is no expression, or no sequence of expressions. -/
inductive ParseError where
  /-- The text cannot be cut into tokens. -/
  | lex (cause : LexError)
  /-- What stands behind an opening parenthesis is no name. -/
  | callTarget (pos : Position)
  /-- The text ends inside the call of `function`. -/
  | unexpectedEnd (function : String) (pos : Position)
  /-- A closing parenthesis closes no call. -/
  | unexpectedClosing (pos : Position)
  /-- There is no expression where one is needed. -/
  | emptyInput
  /-- There is more than the one expression that is needed. -/
  | unexpectedTokens
  deriving DecidableEq, Inhabited

/-- The text of an error. -/
def ParseError.message : ParseError → String
  | .lex cause => cause.message
  | .callTarget pos => "call target must be a name at " ++ toString pos
  | .unexpectedEnd function pos =>
    "unexpected end of input inside call to " ++ function ++ " at " ++ toString pos
  | .unexpectedClosing pos => "unexpected ')' at " ++ toString pos
  | .emptyInput => "expected an expression, found end of input"
  | .unexpectedTokens => "unexpected tokens after the expression!"

/-- The error at the place that `f` gives for its own place. -/
def ParseError.mapPos (f : Position → Position) : ParseError → ParseError
  | .lex cause => .lex (cause.mapPos f)
  | .callTarget pos => .callTarget (f pos)
  | .unexpectedEnd function pos => .unexpectedEnd function (f pos)
  | .unexpectedClosing pos => .unexpectedClosing (f pos)
  | .emptyInput => .emptyInput
  | .unexpectedTokens => .unexpectedTokens

end HostedLisp
