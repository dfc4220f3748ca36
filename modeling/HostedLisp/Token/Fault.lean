import HostedLisp.Token.Written

/-!
# Faults

A text that cannot be cut into tokens holds a first thing that is none: a character that no token
starts with, a quote that no other quote closes, or digits of a value that is too large. What stands
in front of it is written like any other text, with two conditions where it meets the fault: no
comment is still open there, and no digit of the fault belongs to the last lexeme.

All this is said of the characters alone, without reading them.

## Main definitions

* `WrittenBefore` — a text is a way to write some tokens in front of another text
* `Fault`, `Fault.At` — what cannot be read, and the texts that start with it
* `FaultySplit` — a text cut in two in front of a fault, and the error that tells of it
-/

namespace HostedLisp

/-- Whether a digit directly behind a lexeme of a token would belong to the lexeme. -/
def Token.takesDigit : Token → Bool
  | .integer _ | .identifier _ => true
  | _ => false

/-- A way to write some tokens behind the token `before?` and in front of the text `rest`. At the
place where `rest` begins no comment is open, and no lexeme that a digit there would belong to. -/
inductive WrittenBefore (rest : List Char) :
    (before? : Option Token) → List Token → List Char → Prop where
  /-- Behind the last token comes a gap that ends before `rest`. -/
  | nil {before? : Option Token} {gap : List Char} (isGap : Gap false gap)
      (apart : gap = [] → ∀ b ∈ before?, b.takesDigit → ∀ d ∈ rest.head?, d.isDigit = false) :
      WrittenBefore rest before? [] gap
  /-- Before each token comes a gap, which is not empty where the token would stick. -/
  | cons {before? : Option Token} {t : Token} {ts : List Token} {gap lexeme text : List Char}
      (isGap : Gap false gap) (apart : ∀ b ∈ before?, t.sticksTo b → gap ≠ [])
      (isLexeme : Lexeme t lexeme) (others : WrittenBefore rest (some t) ts text) :
      WrittenBefore rest before? (t :: ts) (gap ++ lexeme ++ text)

/-- Whether a character behind `before`, in a string literal, is escaped: an odd number of
backslashes stands directly in front of it, since two of them are an escaped backslash. -/
def isEscapedBehind (before : List Char) : Bool :=
  (before.reverse.takeWhile (· == '\\')).length % 2 == 1

/-- What cannot be read as a token. -/
inductive Fault where
  /-- A character that no token and no gap starts with. -/
  | unexpected (char : Char)
  /-- A quote that no other quote closes. -/
  | unterminated
  /-- Digits of a value that is too large, all that stand in a row. -/
  | overflow (digits : List Char)
  deriving DecidableEq

namespace Fault

/-- The fault stands at the front of a text. -/
def At : Fault → List Char → Prop
  | unexpected char, text => text.head? = some char ∧ isBlank char = false ∧ char ≠ ';' ∧
      char ≠ '"' ∧ char.isDigit = false ∧ startsName char = false ∧ char ≠ '(' ∧ char ≠ ')'
  | unterminated, text => ∃ behind, text = '"' :: behind ∧
      ∀ inside rest, behind = inside ++ '"' :: rest → isEscapedBehind inside
  | overflow digits, text => ∃ behind, text = digits ++ behind ∧ digits ≠ [] ∧
      (∀ c ∈ digits, c.isDigit) ∧ (∀ c ∈ behind.head?, c.isDigit = false) ∧
      integerBound ≤ digitsValue digits

/-- The error that tells of the fault, which stands at `start`. -/
def error (start : Position) : Fault → LexError
  | unexpected char => .unexpectedChar char char.val start
  | unterminated => .unterminatedString start
  | overflow digits => .integerOverflow (String.ofList digits) start

end Fault

/-- A text cut in two: a way to write some tokens, and behind it a fault. -/
@[ext]
structure FaultySplit (text : List Char) where
  /-- The text in front of the fault. -/
  before : List Char
  /-- The text that starts with the fault. -/
  rest : List Char
  /-- The tokens in front of the fault. -/
  tokens : List Token
  /-- The fault. -/
  fault : Fault
  /-- Nothing is left out. -/
  append : before ++ rest = text
  /-- The tokens are written in front of the fault. -/
  written : WrittenBefore rest none tokens before
  /-- The fault is where the text was cut. -/
  faulty : fault.At rest

/-- The error that tells of the fault and of the place where it stands. -/
def FaultySplit.error {text : List Char} (split : FaultySplit text) : LexError :=
  split.fault.error (Position.origin.after split.before)

end HostedLisp
