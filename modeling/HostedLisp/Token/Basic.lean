import HostedLisp.Text.Escaped
import HostedLisp.Text.Position

/-!
# Tokens

The smallest meaningful pieces of a program text, the classes of characters they are made of, and
the ways in which a text can fail to be cut into tokens.

Literal integers carry no sign: a `-` starts an identifier, so `-5` is a name. All classes hold
ASCII characters only; any other character is allowed in strings and comments alone.
-/

namespace HostedLisp

/-- The smallest meaningful piece of a program text. -/
inductive Token where
  /-- A decimal literal. -/
  | integer (value : Int64)
  /-- A string literal, with its escapes resolved. -/
  | string (content : String)
  /-- A name. -/
  | identifier (name : String)
  /-- An opening parenthesis. -/
  | opening
  /-- A closing parenthesis. -/
  | closing
  deriving DecidableEq, Inhabited

/-- The form of a token in log lines. -/
def Token.listing : Token → String
  | .integer value => "Integer(" ++ toString value.toInt ++ ")"
  | .string content => "String(" ++ escapedQuote content ++ ")"
  | .identifier name => "Identifier(" ++ escapedQuote name ++ ")"
  | .opening => "Paren(Open)"
  | .closing => "Paren(Close)"

/-! ### Classes of characters -/

/-- The characters that may stand between tokens without a meaning: space, tab, newline, carriage
return. -/
def isBlank (c : Char) : Bool := c == ' ' || c == '\t' || c == '\n' || c == '\r'

/-- The marks that may stand anywhere in a name. -/
def nameMarks : List Char := ['_', '?', '!', '+', '-', '*', '/', '%', '=', '<', '>']

/-- The characters that a name may start with. -/
def startsName (c : Char) : Bool := c.isAlpha || nameMarks.contains c

/-- The characters that a name may go on with. -/
def continuesName (c : Char) : Bool := startsName c || c.isDigit

/-! ### Errors -/

/-- Why a text cannot be cut into tokens. -/
inductive LexError where
  /-- No token starts with `char`, whose code point is `code` and which stands at `pos`. -/
  | unexpectedChar (char : Char) (code : UInt32) (pos : Position)
  /-- The string literal that starts at `pos` has no closing quote. -/
  | unterminatedString (pos : Position)
  /-- The literal `digits`, which starts at `pos`, has a value of `2 ^ 63` or more. -/
  | integerOverflow (digits : String) (pos : Position)
  deriving DecidableEq, Inhabited

/-- The text of an error. -/
def LexError.message : LexError → String
  | .unexpectedChar char code pos =>
    "Unable to parse character '" ++ char.toString ++ "'(ord#" ++ toString code ++ ") at "
      ++ toString pos
  | .unterminatedString pos => "Unterminated string starting at " ++ toString pos
  | .integerOverflow digits pos =>
    "Integer literal " ++ digits ++ " at " ++ toString pos ++ " does not fit in 64 bits"

/-- The error at the place that `f` gives for its own place. -/
def LexError.mapPos (f : Position → Position) : LexError → LexError
  | .unexpectedChar char code pos => .unexpectedChar char code (f pos)
  | .unterminatedString pos => .unterminatedString (f pos)
  | .integerOverflow digits pos => .integerOverflow digits (f pos)

end HostedLisp
