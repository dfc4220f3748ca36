import HostedLisp.Expr.Tokens
import HostedLisp.Token.Scan

/-!
# Written tokens

The ways in which tokens can be written, said without reading them: the lexemes of each token, the
gaps between lexemes, and which neighbours need a gap that is not empty.

A token has many lexemes. An integer may have leading zeros, and every character of a string may be
written with a backslash before it, though only two need one.

## Main definitions

* `Lexeme` — a text is a way to write a token
* `Gap` — a text is a way to write nothing
* `Written` — a text is a way to write some tokens
-/

namespace HostedLisp

/-- The value of a run of digits. -/
def digitsValue (digits : List Char) : Nat :=
  digits.foldl (fun n c => 10 * n + (c.toNat - '0'.toNat)) 0

/-- A way to write the content of a string between quotes. -/
inductive StringBody : (content written : List Char) → Prop where
  /-- Nothing is written as nothing. -/
  | nil : StringBody [] []
  /-- A character that needs no backslash may stand for itself. -/
  | plain {c : Char} {content written : List Char} (quote : c ≠ '"') (backslash : c ≠ '\\')
      (rest : StringBody content written) : StringBody (c :: content) (c :: written)
  /-- Every character may be written with a backslash before it. -/
  | escaped {c : Char} {content written : List Char} (rest : StringBody content written) :
      StringBody (c :: content) ('\\' :: c :: written)

/-- A way to write a token. -/
inductive Lexeme : Token → List Char → Prop where
  /-- An integer is written as digits of its value. -/
  | integer {digits : List Char} (nonempty : digits ≠ []) (all : ∀ c ∈ digits, c.isDigit)
      (bound : digitsValue digits < integerBound) :
      Lexeme (.integer (Int64.ofNat (digitsValue digits))) digits
  /-- A string is written between quotes. -/
  | string {content written : List Char} (body : StringBody content written) :
      Lexeme (.string (String.ofList content)) ('"' :: (written ++ ['"']))
  /-- A name is written as itself. -/
  | identifier {name : String} (isName : IsName name) : Lexeme (.identifier name) name.toList
  /-- A parenthesis is written as itself. -/
  | opening : Lexeme .opening ['(']
  /-- A parenthesis is written as itself. -/
  | closing : Lexeme .closing [')']

/-- A way to write nothing: blanks and comments. Only at the end of a text, where `final` holds, may
a comment lack the newline that ends it. -/
inductive Gap (final : Bool) : List Char → Prop where
  /-- Nothing at all. -/
  | nil : Gap final []
  /-- A blank before a gap. -/
  | blank {c : Char} {gap : List Char} (isBlank : isBlank c) (rest : Gap final gap) :
      Gap final (c :: gap)
  /-- A comment before a gap. -/
  | comment {text gap : List Char} (oneLine : '\n' ∉ text) (rest : Gap final gap) :
      Gap final (';' :: (text ++ '\n' :: gap))
  /-- A comment that ends with the text. -/
  | last {text : List Char} (isFinal : final) (oneLine : '\n' ∉ text) : Gap final (';' :: text)

/-- Whether a token directly behind another one would be read as a part of it. -/
def Token.sticksTo : Token → Token → Bool
  | .identifier _, .identifier _ => true
  | .integer _, .identifier _ => true
  | .integer _, .integer _ => true
  | _, _ => false

/-- A way to write some tokens behind the token `before?`. -/
inductive WrittenAfter : (before? : Option Token) → List Token → List Char → Prop where
  /-- Behind the last token comes a final gap. -/
  | nil {before? : Option Token} {gap : List Char} (isGap : Gap true gap) :
      WrittenAfter before? [] gap
  /-- Before each token comes a gap, which is not empty where the token would stick. -/
  | cons {before? : Option Token} {t : Token} {ts : List Token} {gap lexeme text : List Char}
      (isGap : Gap false gap) (apart : ∀ b ∈ before?, t.sticksTo b → gap ≠ [])
      (isLexeme : Lexeme t lexeme) (rest : WrittenAfter (some t) ts text) :
      WrittenAfter before? (t :: ts) (gap ++ lexeme ++ text)

/-- A way to write some tokens. -/
def Written (ts : List Token) (text : List Char) : Prop := WrittenAfter none ts text

end HostedLisp
