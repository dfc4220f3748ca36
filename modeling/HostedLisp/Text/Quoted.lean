/-!
# Quoted text

The written form of a string in programs and in displayed values: the text between two double
quotes, with a backslash before each double quote and each backslash. Every other character, a
newline included, stands for itself.
-/

namespace HostedLisp

namespace Quoted

/-- The characters that need a backslash between quotes: the one that would end the text and the
backslash itself. -/
def needsEscape (c : Char) : Bool := c == '"' || c == '\\'

/-- One character as it is written between quotes. -/
def escapeChar (c : Char) : List Char := if needsEscape c then ['\\', c] else [c]

/-- A text as it is written between quotes. -/
def escape (cs : List Char) : List Char := cs.flatMap escapeChar

/-- A text in quotes, as a list of characters. -/
def quoteList (cs : List Char) : List Char := '"' :: (escape cs ++ ['"'])

end Quoted

/-- A text in quotes. -/
def quote (s : String) : String := String.ofList (Quoted.quoteList s.toList)

end HostedLisp
