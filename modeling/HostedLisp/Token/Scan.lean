import HostedLisp.Text.Cursor
import HostedLisp.Token.Basic

/-!
# Cutting a text into tokens

Reading a token skips the gap before it, a run of blanks and comments, and then takes the longest
lexeme at the front of what is left. A comment runs from a semicolon up to the end of its line. In a
string literal a backslash makes the character after it, whichever it is, part of the content.

Scanning itself knows no positions: `splitGap` and `front` look at the unread characters alone and
say where to cut them, and `readNext` moves the cursor by the cut. An unexpected character is left
unread, so reading on meets it again; a literal that is too large and a string without an end are
consumed like tokens.

## Main definitions

* `splitGap` — the gap at the front of a text, and the text behind it
* `front` — what stands at the front of a text that starts with no gap
* `readNext` — reads one token through a cursor
* `readAll`, `tokenize` — all tokens up to the end or the first error

## Main results

* `splitGap_append`, `append_of_front_token`, `append_of_front_overflow` — a cut loses nothing
* `length_readNext_lt` — a token that was read leaves less to read
-/

namespace HostedLisp

/-! ### Gaps -/

/-- Continues a gap: `gap` holds its characters so far, the last one first, and `comment` says
whether the last one belongs to a comment that is still open. -/
def splitGapOnto (gap : List Char) (comment : Bool) : List Char → List Char × List Char
  | [] => (gap.reverse, [])
  | c :: cs =>
    if comment then splitGapOnto (c :: gap) (c != '\n') cs
    else if isBlank c then splitGapOnto (c :: gap) false cs
    else if c = ';' then splitGapOnto (c :: gap) true cs
    else (gap.reverse, c :: cs)

/-- The blanks and comments at the front of a text, and the text behind them. -/
def splitGap (cs : List Char) : List Char × List Char := splitGapOnto [] false cs

theorem splitGapOnto_append (gap : List Char) (comment : Bool) (cs : List Char) :
    (splitGapOnto gap comment cs).1 ++ (splitGapOnto gap comment cs).2 = gap.reverse ++ cs := by
  fun_induction splitGapOnto gap comment cs <;> simp_all

theorem splitGap_append (cs : List Char) : (splitGap cs).1 ++ (splitGap cs).2 = cs := by
  simpa [splitGap] using splitGapOnto_append [] false cs

/-! ### Literals -/

/-- Continues a string literal: `lexeme` and `content` hold what was written and what it means so
far, the last character first, and `escaped` says whether a backslash came just before. With the
closing quote the literal ends and the text behind it is left. -/
def scanString (lexeme content : List Char) (escaped : Bool) :
    List Char → Option (List Char × List Char × List Char)
  | [] => none
  | c :: cs =>
    if escaped then scanString (c :: lexeme) (c :: content) false cs
    else if c = '\\' then scanString (c :: lexeme) content true cs
    else if c = '"' then some ((c :: lexeme).reverse, content.reverse, cs)
    else scanString (c :: lexeme) (c :: content) false cs

/-- Integer literals have to stay below this bound, which has 63 binary zeros. -/
def integerBound : Nat := 0x8000000000000000

/-- The value of a run of digits behind digits of the value `n`, as long as it stays below
`integerBound`. -/
def decimalFrom (n : Nat) : List Char → Option Nat
  | [] => some n
  | c :: cs =>
    let m := 10 * n + (c.toNat - '0'.toNat)
    if m < integerBound then decimalFrom m cs else none

/-- The value of a run of digits, if it is below `integerBound`. -/
def decimal? (digits : List Char) : Option Nat := decimalFrom 0 digits

/-- The scan adds to the lexeme exactly the characters that it takes from the text. -/
theorem append_of_scanString {lexeme content cs l t rest : List Char} {escaped : Bool}
    (h : scanString lexeme content escaped cs = some (l, t, rest)) :
    ∃ added, l = lexeme.reverse ++ added ∧ added ++ rest = cs := by
  fun_induction scanString lexeme content escaped cs with
  | case1 => cases h
  | case4 => exact ⟨['"'], by grind⟩
  | case2 _ _ _ _ ih | case3 _ _ _ _ _ ih | case5 _ _ _ _ _ _ _ _ ih =>
    obtain ⟨added, rfl, rfl⟩ := ih h
    exact ⟨_ :: added, by simp, rfl⟩

/-! ### The front of a text -/

/-- What stands at the front of a text without a leading gap. -/
inductive Front where
  /-- The end of the text. -/
  | nothing
  /-- A token, with its lexeme and the text behind it. -/
  | token (token : Token) (lexeme rest : List Char)
  /-- An integer literal that is too large, and the text behind it. -/
  | overflow (digits rest : List Char)
  /-- A quote that no other quote closes. -/
  | unterminated
  /-- A character that no token starts with. -/
  | unexpected (char : Char)

/-- Finds the longest lexeme at the front of a text without a leading gap. -/
def front : List Char → Front
  | [] => .nothing
  | c :: cs =>
    if c = '"' then
      match scanString [c] [] false cs with
      | some (lexeme, content, rest) => .token (.string (String.ofList content)) lexeme rest
      | none => .unterminated
    else if c.isDigit then
      let digits := (c :: cs).takeWhile Char.isDigit
      let rest := (c :: cs).dropWhile Char.isDigit
      match decimal? digits with
      | some n => .token (.integer (Int64.ofNat n)) digits rest
      | none => .overflow digits rest
    else if startsName c then
      let name := (c :: cs).takeWhile continuesName
      .token (.identifier (String.ofList name)) name ((c :: cs).dropWhile continuesName)
    else if c = '(' then .token .opening [c] cs
    else if c = ')' then .token .closing [c] cs
    else .unexpected c

theorem append_of_front_token {cs lexeme rest : List Char} {t : Token}
    (h : front cs = .token t lexeme rest) : lexeme ++ rest = cs := by
  unfold front at h
  split at h
  · cases h
  · split at h
    · split at h
      · next heq =>
        cases h
        obtain ⟨added, rfl, rfl⟩ := append_of_scanString heq
        simp
      · cases h
    · grind [List.takeWhile_append_dropWhile]

theorem append_of_front_overflow {cs digits rest : List Char}
    (h : front cs = .overflow digits rest) : digits ++ rest = cs := by
  unfold front at h
  grind [List.takeWhile_append_dropWhile]

/-- Every token is written with at least one character. -/
theorem ne_nil_of_front_token {cs lexeme rest : List Char} {t : Token}
    (h : front cs = .token t lexeme rest) : lexeme ≠ [] := by
  unfold front at h
  split at h
  · cases h
  · split at h
    · split at h
      · next heq =>
        cases h
        obtain ⟨added, rfl, _⟩ := append_of_scanString heq
        simp
      · cases h
    · grind [continuesName, List.takeWhile_cons]

/-! ### Reading tokens -/

namespace Cursor

/-- The cursor behind the gap that it stands before. -/
def skipGap (c : Cursor) : Cursor := c.advance (splitGap c.unread).1 (splitGap c.unread).2

/-- Reads one token. There is none once only a gap is left, which is consumed. -/
def readNext (c : Cursor) : Except LexError (Option Token) × Cursor :=
  let start := c.skipGap
  match front start.unread with
  | .nothing => (.ok none, start)
  | .token t lexeme rest => (.ok (some t), start.advance lexeme rest)
  | .overflow digits rest =>
    (.error (.integerOverflow (String.ofList digits) start.pos), start.advance digits rest)
  | .unterminated => (.error (.unterminatedString start.pos), start.advance start.unread [])
  | .unexpected char => (.error (.unexpectedChar char char.val start.pos), start)

theorem length_skipGap_le (c : Cursor) : c.skipGap.unread.length ≤ c.unread.length := by
  have := congrArg List.length (splitGap_append c.unread)
  simp only [List.length_append] at this
  simp only [skipGap, unread_advance]
  omega

/-- A token that was read leaves less to read. -/
theorem length_readNext_lt {c c' : Cursor} {t : Token} (h : c.readNext = (.ok (some t), c')) :
    c'.unread.length < c.unread.length := by
  have hgap := c.length_skipGap_le
  simp only [readNext] at h
  split at h <;> cases h
  next lexeme rest heq =>
    have hcut := congrArg List.length (append_of_front_token heq)
    have hpos := List.length_pos_iff.2 (ne_nil_of_front_token heq)
    simp only [List.length_append] at hcut
    simp only [unread_advance]
    omega

end Cursor

/-! ### Reading all tokens -/

/-- The outcome of reading tokens until the text ends or cannot be cut any further. -/
structure TokenRun where
  /-- The tokens that were read, in order. -/
  tokens : List Token
  /-- The error that ended the run, if it was not the end of the text. -/
  error? : Option LexError
  /-- The place reached. -/
  cursor : Cursor

/-- The tokens of a run that reached the end of its text. -/
def TokenRun.result (run : TokenRun) : Except LexError (List Token) :=
  match run.error? with
  | none => .ok run.tokens
  | some e => .error e

/-- Reads on behind the tokens `read`. -/
def Cursor.readOnto (read : Array Token) (c : Cursor) : TokenRun :=
  match _h : c.readNext with
  | (.ok (some t), c') => readOnto (read.push t) c'
  | (.ok none, c') => ⟨read.toList, none, c'⟩
  | (.error e, c') => ⟨read.toList, some e, c'⟩
termination_by c.unread.length
decreasing_by exact length_readNext_lt _h

/-- Reads tokens up to the end of the text or the first error. -/
def Cursor.readAll (c : Cursor) : TokenRun := c.readOnto #[]

/-- Cuts a text into its tokens. -/
def tokenize (source : String) : Except LexError (List Token) :=
  (Cursor.ofString source).readAll.result

end HostedLisp
