import HostedLisp.Text.Shown

/-!
# Escaped text

The form of a text in listings and log lines, where every character must be visible: between double
quotes, with short escapes for the quote, the backslash and four common controls, and with the code
point in hexadecimal, `\u` and braces around it, for every other character that is not shown. A
single quote stands for itself.
-/

namespace HostedLisp

namespace Escaped

/-- The letter that a backslash is put before to name `c`, for the characters that have one. -/
def letter? : Char → Option Char
  | '"' => some '"'
  | '\\' => some '\\'
  | '\n' => some 'n'
  | '\r' => some 'r'
  | '\t' => some 't'
  | '\x00' => some '0'
  | _ => none

/-- One character as it is written between quotes. -/
def escapeChar (c : Char) : List Char :=
  match letter? c with
  | some l => ['\\', l]
  | none =>
    if Text.isShown c then [c] else ['\\', 'u', '\x7b'] ++ Nat.toDigits 16 c.toNat ++ ['\x7d']

/-- A text in quotes, as a list of characters. -/
def quoteList (cs : List Char) : List Char := '"' :: (cs.flatMap escapeChar ++ ['"'])

end Escaped

/-- A text in quotes with every character visible. -/
def escapedQuote (s : String) : String := String.ofList (Escaped.quoteList s.toList)

end HostedLisp
