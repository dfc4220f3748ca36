import HostedLisp.Token.Written

/-!
# The lexeme at the front of a text

`front` takes the longest lexeme at the front of a text that starts with no gap. What it takes is a
lexeme in the sense of `Lexeme`, which says how tokens are written without reading them, and what is
left does not start with a character that the lexeme could have gone on with. These facts determine
what `front` takes, so each kind of token is read back from any way to write it.

The first character of a lexeme shows the kind of its token, since the classes of first characters
do not overlap.

## Main definitions

* `Token.beginsWith`, `Token.goesOnWith` — the characters that lexemes of a token may start with,
  and those that would make one longer

## Main results

* `scanString_eq_some_iff`, `decimal?_eq_some_iff` — the literals that are read
* `front_eq_token_iff` — the tokens that `front` finds
* `front_eq_overflow_iff`, `front_eq_unexpected_iff` — the two errors that a first lexeme shows
* `goesOnWith_of_beginsWith` — which neighbours would become one lexeme
-/

namespace HostedLisp

/-! ### Classes of characters -/

/-- Whether a lexeme of a token may start with a character. -/
def Token.beginsWith : Token → Char → Bool
  | .integer _, c => c.isDigit
  | .string _, c => c == '"'
  | .identifier _, c => startsName c
  | .opening, c => c == '('
  | .closing, c => c == ')'

/-- Whether a character behind a lexeme of a token would belong to the lexeme. -/
def Token.goesOnWith : Token → Char → Bool
  | .integer _, c => c.isDigit
  | .identifier _, c => continuesName c
  | _, _ => false

/-- No digit is the initial of a name. -/
theorem startsName_of_isDigit {c : Char} (h : c.isDigit) : startsName c = false := by
  have hmarks : nameMarks.all (fun m => !m.isDigit) := by decide
  have hmark : c ∉ nameMarks := by
    intro hc
    have hdigit := List.all_eq_true.1 hmarks c hc
    rw [h] at hdigit
    cases hdigit
  have halpha : c.isAlpha = false := by
    have hnine : c.toNat ≤ 57 := (Char.isDigit_iff_toNat.1 h).2
    -- All letters come behind the digits.
    refine Bool.or_eq_false_iff.2 ⟨decide_eq_false fun hupper => ?_,
      Bool.and_eq_false_iff.2 (.inl (decide_eq_false fun hlower => ?_))⟩
    · have : 65 ≤ c.toNat := UInt32.le_iff_toNat_le.1 hupper.1
      omega
    · have : 97 ≤ c.toNat := UInt32.le_iff_toNat_le.1 hlower
      omega
  simpa [startsName, halpha] using hmark

theorem isDigit_of_startsName {c : Char} (h : startsName c) : c.isDigit = false := by
  cases hc : c.isDigit with
  | false => rfl
  | true =>
    rw [startsName_of_isDigit hc] at h
    cases h

/-- A name goes on with whatever a name or an integer may start with. -/
theorem continuesName_eq (c : Char) : continuesName c = (startsName c || c.isDigit) := rfl

theorem continuesName_of_startsName {c : Char} (h : startsName c) : continuesName c := by
  rw [continuesName_eq, h, Bool.true_or]

/-- Lexemes go on with characters of names only. -/
theorem goesOnWith_of_not_continuesName {c : Char} (h : continuesName c = false) (b : Token) :
    b.goesOnWith c = false := by
  have hdigit : c.isDigit = false := by
    rw [continuesName_eq, Bool.or_eq_false_iff] at h
    exact h.2
  cases b with
  | integer _ => exact hdigit
  | identifier _ => exact h
  | string _ | opening | closing => rfl

/-- The characters that start a gap. -/
theorem eq_of_startsGap {c : Char} (h : isBlank c ∨ c = ';') :
    c = ' ' ∨ c = '\t' ∨ c = '\n' ∨ c = '\r' ∨ c = ';' := by
  simpa [isBlank, or_assoc] using h

/-- No lexeme goes on with a character that starts a gap. -/
theorem goesOnWith_of_startsGap {c : Char} (h : isBlank c ∨ c = ';') (b : Token) :
    b.goesOnWith c = false := by
  refine goesOnWith_of_not_continuesName ?_ b
  rcases eq_of_startsGap h with rfl | rfl | rfl | rfl | rfl <;> decide

/-- No lexeme starts with a character that starts a gap. -/
theorem not_startsGap_of_beginsWith {t : Token} {c : Char} (h : t.beginsWith c) :
    isBlank c = false ∧ c ≠ ';' := by
  have hgap : ¬(isBlank c ∨ c = ';') := by
    intro hgap
    rcases eq_of_startsGap hgap with rfl | rfl | rfl | rfl | rfl <;> cases t <;> cases h
  simpa using hgap

/-- **Which neighbours would become one lexeme.** -/
theorem goesOnWith_of_beginsWith {b t : Token} {c : Char} (h : t.beginsWith c) :
    b.goesOnWith c = t.sticksTo b := by
  cases t with
  | integer _ =>
    have hdigit : c.isDigit = true := h
    cases b <;> simp [Token.goesOnWith, Token.sticksTo, continuesName_eq, hdigit]
  | identifier _ =>
    have hname : startsName c = true := h
    cases b <;>
      simp [Token.goesOnWith, Token.sticksTo, continuesName_eq, hname, isDigit_of_startsName hname]
  | string _ | opening | closing =>
    obtain rfl := eq_of_beq h
    exact goesOnWith_of_not_continuesName (by decide) b

/-- A lexeme starts with a character that shows the kind of its token. -/
theorem Lexeme.exists_cons {t : Token} {lexeme : List Char} (h : Lexeme t lexeme) :
    ∃ c cs, lexeme = c :: cs ∧ t.beginsWith c := by
  cases h with
  | @integer digits nonempty all bound =>
    obtain ⟨c, cs, rfl⟩ := List.exists_cons_of_ne_nil nonempty
    exact ⟨c, cs, rfl, all c (by simp)⟩
  | string body => exact ⟨'"', _, rfl, rfl⟩
  | identifier isName =>
    obtain ⟨c, cs, hname, hc, -⟩ := isName
    exact ⟨c, cs, hname, hc⟩
  | opening => exact ⟨'(', [], rfl, rfl⟩
  | closing => exact ⟨')', [], rfl, rfl⟩

/-! ### Strings -/

/-- What the scan reads is the body of a string. Where a backslash came just before, it continues
that backslash. -/
theorem stringBody_of_scanString {lexeme content cs l t rest : List Char} {escaped : Bool}
    (h : scanString lexeme content escaped cs = some (l, t, rest)) :
    ∃ written body, l = lexeme.reverse ++ (written ++ ['"']) ∧ t = content.reverse ++ body ∧
      written ++ '"' :: rest = cs ∧
      StringBody body (if escaped then '\\' :: written else written) := by
  fun_induction scanString lexeme content escaped cs with
  | case1 => cases h
  | case2 lexeme content c cs ih =>
    obtain ⟨written, body, rfl, rfl, rfl, hbody⟩ := ih h
    exact ⟨c :: written, c :: body, by simp, by simp, rfl, .escaped hbody⟩
  | case3 lexeme content escaped cs hescaped ih =>
    obtain ⟨written, body, rfl, rfl, rfl, hbody⟩ := ih h
    refine ⟨'\\' :: written, body, by simp, rfl, rfl, ?_⟩
    rw [if_neg hescaped]
    exact hbody
  | case4 lexeme content escaped cs hescaped =>
    cases h
    refine ⟨[], [], by simp, by simp, rfl, ?_⟩
    rw [if_neg hescaped]
    exact .nil
  | case5 lexeme content escaped c cs hescaped hslash hquote ih =>
    obtain ⟨written, body, rfl, rfl, rfl, hbody⟩ := ih h
    refine ⟨c :: written, c :: body, by simp, by simp, rfl, ?_⟩
    rw [if_neg hescaped]
    exact .plain hquote hslash hbody

theorem scanString_of_stringBody (lexeme content : List Char) {body written : List Char}
    (h : StringBody body written) (rest : List Char) :
    scanString lexeme content false (written ++ '"' :: rest)
      = some (lexeme.reverse ++ (written ++ ['"']), content.reverse ++ body, rest) := by
  induction h generalizing lexeme content with
  | nil => simp [scanString]
  | plain hquote hslash _ ih => simp [scanString, hquote, hslash, ih]
  | escaped _ ih => simp [scanString, ih]

/-- The string literals that are read, behind the opening quote. -/
theorem scanString_eq_some_iff {cs l t rest : List Char} :
    scanString ['"'] [] false cs = some (l, t, rest) ↔
      ∃ written, StringBody t written ∧ l = '"' :: (written ++ ['"']) ∧
        written ++ '"' :: rest = cs := by
  constructor
  · intro h
    obtain ⟨written, body, rfl, rfl, rfl, hbody⟩ := stringBody_of_scanString h
    exact ⟨written, hbody, rfl, rfl⟩
  · rintro ⟨written, hbody, rfl, rfl⟩
    exact scanString_of_stringBody ['"'] [] hbody rest

/-! ### Integers -/

/-- More digits never make a value smaller. -/
theorem le_foldl_digits (n : Nat) (digits : List Char) :
    n ≤ digits.foldl (fun n c => 10 * n + (c.toNat - '0'.toNat)) n := by
  induction digits generalizing n with
  | nil => exact Nat.le_refl n
  | cons c digits ih =>
    rw [List.foldl_cons]
    exact Nat.le_trans (by omega) (ih _)

/-- The value is given up as soon as it reaches the bound, from where it could not come back. -/
theorem decimalFrom_eq {n : Nat} (h : n < integerBound) (digits : List Char) :
    decimalFrom n digits =
      if digits.foldl (fun n c => 10 * n + (c.toNat - '0'.toNat)) n < integerBound
      then some (digits.foldl (fun n c => 10 * n + (c.toNat - '0'.toNat)) n) else none := by
  induction digits generalizing n with
  | nil => rw [decimalFrom, List.foldl_nil, if_pos h]
  | cons c digits ih =>
    rw [decimalFrom, List.foldl_cons]
    split
    · next hm => exact ih hm
    · next hm =>
      have hle := le_foldl_digits (10 * n + (c.toNat - '0'.toNat)) digits
      rw [if_neg (by omega)]

/-- The integer literals that are read. -/
theorem decimal?_eq_some_iff {digits : List Char} {n : Nat} :
    decimal? digits = some n ↔ digitsValue digits = n ∧ n < integerBound := by
  rw [decimal?, decimalFrom_eq (by decide), ← digitsValue]
  split
  · next h =>
    rw [Option.some.injEq]
    exact (and_iff_left_of_imp fun hn => hn ▸ h).symm
  · next h =>
    refine iff_of_false (by simp) ?_
    rintro ⟨rfl, hn⟩
    exact h hn

/-! ### Runs of characters -/

/-- A run of characters of one class is cut off where the class ends. -/
theorem takeWhile_run {p : Char → Bool} {run rest : List Char} (hrun : ∀ c ∈ run, p c)
    (hrest : ∀ c ∈ rest.head?, p c = false) :
    (run ++ rest).takeWhile p = run ∧ (run ++ rest).dropWhile p = rest := by
  rw [List.takeWhile_append_of_pos hrun, List.dropWhile_append_of_pos hrun]
  cases rest with
  | nil => simp
  | cons c rest =>
    have hc : p c = false := hrest c rfl
    simp [hc]

theorem head?_dropWhile {p : Char → Bool} {cs : List Char} :
    ∀ c ∈ (cs.dropWhile p).head?, p c = false := by
  intro c hc
  have := List.head?_dropWhile_not p cs
  simp_all

theorem mem_takeWhile {p : Char → Bool} {cs : List Char} : ∀ c ∈ cs.takeWhile p, p c :=
  List.all_eq_true.1 List.all_takeWhile

/-! ### The front of a text -/

/-- Only the end of the text is nothing. -/
theorem front_eq_nothing_iff {cs : List Char} : front cs = .nothing ↔ cs = [] := by
  cases cs with
  | nil => simp [front]
  | cons c cs =>
    simp only [front, reduceCtorEq, iff_false]
    repeat' split
    all_goals simp

theorem front_quote (cs : List Char) :
    front ('"' :: cs) = match scanString ['"'] [] false cs with
      | some (lexeme, content, rest) => .token (.string (String.ofList content)) lexeme rest
      | none => .unterminated := by
  rw [front]
  exact if_pos rfl

theorem front_digit {c : Char} (h : c.isDigit) (cs : List Char) :
    front (c :: cs) = match decimal? ((c :: cs).takeWhile Char.isDigit) with
      | some n => .token (.integer (Int64.ofNat n)) ((c :: cs).takeWhile Char.isDigit)
          ((c :: cs).dropWhile Char.isDigit)
      | none => .overflow ((c :: cs).takeWhile Char.isDigit)
          ((c :: cs).dropWhile Char.isDigit) := by
  have hquote : c ≠ '"' := by
    rintro rfl
    cases h
  rw [front, if_neg hquote]
  exact if_pos h

theorem front_initial {c : Char} (h : startsName c) (cs : List Char) :
    front (c :: cs) = .token (.identifier (String.ofList ((c :: cs).takeWhile continuesName)))
      ((c :: cs).takeWhile continuesName) ((c :: cs).dropWhile continuesName) := by
  have hquote : c ≠ '"' := by
    rintro rfl
    cases h
  rw [front, if_neg hquote, if_neg (by simp [isDigit_of_startsName h]), if_pos h]

/-- What `front` finds is a lexeme, and it is not cut off too early. -/
theorem lexeme_of_front_token {cs lexeme rest : List Char} {t : Token}
    (h : front cs = .token t lexeme rest) :
    Lexeme t lexeme ∧ ∀ c ∈ rest.head?, t.goesOnWith c = false := by
  cases cs with
  | nil => cases h
  | cons c cs =>
    by_cases hquote : c = '"'
    · subst hquote
      rw [front_quote] at h
      split at h
      · next hscan =>
        cases h
        obtain ⟨written, hbody, rfl, -⟩ := scanString_eq_some_iff.1 hscan
        exact ⟨.string hbody, fun _ _ => rfl⟩
      · cases h
    by_cases hdigit : c.isDigit
    · rw [front_digit hdigit] at h
      split at h
      · next hn =>
        cases h
        obtain ⟨rfl, hbound⟩ := decimal?_eq_some_iff.1 hn
        exact ⟨.integer (by simp [hdigit]) mem_takeWhile hbound, head?_dropWhile⟩
      · cases h
    by_cases hname : startsName c
    · rw [front_initial hname] at h
      cases h
      have isName : IsName (String.ofList ((c :: cs).takeWhile continuesName)) := by
        refine ⟨c, cs.takeWhile continuesName, ?_, hname, mem_takeWhile⟩
        rw [String.toList_ofList, List.takeWhile_cons, if_pos (continuesName_of_startsName hname)]
      have hlexeme := Lexeme.identifier isName
      rw [String.toList_ofList] at hlexeme
      exact ⟨hlexeme, head?_dropWhile⟩
    rw [front, if_neg hquote, if_neg hdigit, if_neg hname] at h
    split at h
    · next hc =>
      cases h
      exact ⟨hc ▸ .opening, fun _ _ => rfl⟩
    · split at h
      · next hc =>
        cases h
        exact ⟨hc ▸ .closing, fun _ _ => rfl⟩
      · cases h

/-- A lexeme is found when what follows does not make it longer. -/
theorem front_of_lexeme {lexeme rest : List Char} {t : Token} (h : Lexeme t lexeme)
    (hrest : ∀ c ∈ rest.head?, t.goesOnWith c = false) :
    front (lexeme ++ rest) = .token t lexeme rest := by
  cases h with
  | @integer digits nonempty all bound =>
    obtain ⟨htake, hdrop⟩ := takeWhile_run all hrest
    obtain ⟨c, cs, rfl⟩ := List.exists_cons_of_ne_nil nonempty
    have hn : decimal? (c :: cs) = some (digitsValue (c :: cs)) :=
      decimal?_eq_some_iff.2 ⟨rfl, bound⟩
    rw [List.cons_append, front_digit (all c (by simp)), ← List.cons_append, htake, hdrop, hn]
  | @string content written hbody =>
    have hscan : scanString ['"'] [] false (written ++ '"' :: rest)
        = some ('"' :: (written ++ ['"']), content, rest) :=
      scanString_eq_some_iff.2 ⟨written, hbody, rfl, rfl⟩
    rw [List.cons_append, List.append_assoc, List.singleton_append, front_quote, hscan]
  | @identifier name isName =>
    obtain ⟨c, cs, hname, hc, hcs⟩ := isName
    have hall : ∀ d ∈ name.toList, continuesName d := by
      rw [hname]
      intro d hd
      rcases List.mem_cons.1 hd with rfl | hd
      · exact continuesName_of_startsName hc
      · exact hcs d hd
    obtain ⟨htake, hdrop⟩ := takeWhile_run hall hrest
    have hfront := front_initial hc (cs ++ rest)
    rw [← List.cons_append, ← hname, htake, hdrop, String.ofList_toList] at hfront
    exact hfront
  | opening => rfl
  | closing => rfl

/-- **The tokens that `front` finds.** -/
theorem front_eq_token_iff {cs lexeme rest : List Char} {t : Token} :
    front cs = .token t lexeme rest ↔
      Lexeme t lexeme ∧ lexeme ++ rest = cs ∧ ∀ c ∈ rest.head?, t.goesOnWith c = false := by
  constructor
  · intro h
    obtain ⟨hlexeme, hrest⟩ := lexeme_of_front_token h
    exact ⟨hlexeme, append_of_front_token h, hrest⟩
  · rintro ⟨hlexeme, rfl, hrest⟩
    exact front_of_lexeme hlexeme hrest

/-- **The literals that are too large.** -/
theorem front_eq_overflow_iff {cs digits rest : List Char} :
    front cs = .overflow digits rest ↔
      digits ≠ [] ∧ (∀ c ∈ digits, c.isDigit) ∧ decimal? digits = none ∧ digits ++ rest = cs ∧
        ∀ c ∈ rest.head?, c.isDigit = false := by
  constructor
  · intro h
    cases cs with
    | nil => cases h
    | cons c cs =>
      by_cases hdigit : c.isDigit
      · rw [front_digit hdigit] at h
        split at h
        · cases h
        · next hn =>
          cases h
          exact ⟨by simp [hdigit], mem_takeWhile, hn, List.takeWhile_append_dropWhile,
            head?_dropWhile⟩
      · simp only [front, if_neg hdigit] at h
        repeat' split at h
        all_goals cases h
  · rintro ⟨hne, hall, hn, rfl, hrest⟩
    obtain ⟨c, cs, rfl⟩ := List.exists_cons_of_ne_nil hne
    obtain ⟨htake, hdrop⟩ := takeWhile_run hall hrest
    rw [List.cons_append, front_digit (hall c (by simp)), ← List.cons_append, htake, hdrop, hn]

/-- **The characters that no token starts with.** -/
theorem front_eq_unexpected_iff {cs : List Char} {c : Char} :
    front cs = .unexpected c ↔
      cs.head? = some c ∧ c ≠ '"' ∧ c.isDigit = false ∧ startsName c = false ∧
        c ≠ '(' ∧ c ≠ ')' := by
  cases cs with
  | nil => simp [front]
  | cons d ds =>
    rw [List.head?_cons, Option.some.injEq]
    constructor
    · intro h
      simp only [front] at h
      repeat' split at h
      all_goals cases h
      simp_all
    · rintro ⟨rfl, hquote, hdigit, hname, hopening, hclosing⟩
      simp [front, hquote, hdigit, hname, hopening, hclosing]

end HostedLisp
