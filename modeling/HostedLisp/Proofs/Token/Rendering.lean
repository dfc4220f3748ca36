import HostedLisp.Proofs.Token.Reads

/-!
# Tokenizing accepts exactly the written forms

`Written` says in which ways tokens can be written, and `tokenize` reads a text as tokens. The two
are the same relation: every way to write some tokens is read as these tokens, and whatever is read
was written in one of these ways.

The condition on neighbours is the heart of it. `Written` forbids an empty gap between two tokens of
certain kinds, while the scanner takes the longest lexeme it can and knows nothing of the token that
comes next. Both say the same of the first character behind a lexeme: `writtenAfter_iff` turns one
into the other.

## Main results

* `writtenAfter_iff` — what may stand behind a token
* `written_iff_reads` — the written forms are the texts through which the tokens can be pulled
* `tokenize_eq_ok_iff_written` — a text is cut into tokens exactly if it is a way to write them
-/

namespace HostedLisp

variable {t : Token} {ts : List Token} {text : List Char}

/-! ### Neighbours -/

/-- The first character behind a token belongs to a gap, or starts the lexeme of the next token. -/
theorem goesOnWith_of_head {gap lexeme : List Char} (hgap : Gap false gap)
    (hlexeme : Lexeme t lexeme) (text : List Char) (b : Token) :
    (∀ c ∈ (gap ++ lexeme ++ text).head?, b.goesOnWith c = false) ↔ (t.sticksTo b → gap ≠ []) := by
  cases gap with
  | nil =>
    obtain ⟨c, cs, rfl, hc⟩ := hlexeme.exists_cons
    simp [goesOnWith_of_beginsWith hc]
  | cons c gap =>
    simp [goesOnWith_of_startsGap (hgap.head_eq rfl) b]

/-- **What may stand behind a token**: what may stand at the front of a text, unless it starts with
a character that the lexeme of the token would go on with. -/
theorem writtenAfter_iff {before? : Option Token} :
    WrittenAfter before? ts text ↔
      Written ts text ∧ ∀ b ∈ before?, ∀ c ∈ text.head?, b.goesOnWith c = false := by
  constructor
  · intro h
    cases h with
    | nil isGap => exact ⟨.nil isGap, fun b _ c hc => goesOnWith_of_startsGap (isGap.head_eq hc) b⟩
    | @cons _ _ _ gap lexeme text isGap apart isLexeme rest =>
      refine ⟨.cons isGap (by simp) isLexeme rest, fun b hb => ?_⟩
      exact (goesOnWith_of_head isGap isLexeme text b).2 (apart b hb)
  · rintro ⟨h, hclear⟩
    cases h with
    | nil isGap => exact .nil isGap
    | @cons _ _ _ gap lexeme text isGap _ isLexeme rest =>
      refine .cons isGap (fun b hb => ?_) isLexeme rest
      exact (goesOnWith_of_head isGap isLexeme text b).1 (hclear b hb)

/-! ### Whole texts -/

theorem written_nil_iff : Written [] text ↔ Gap true text := by
  constructor
  · intro h
    cases h with
    | nil isGap => exact isGap
  · exact .nil

/-- The first token is written behind a gap, and the others behind the first token. -/
theorem written_cons_iff :
    Written (t :: ts) text ↔ ∃ gap lexeme rest, Gap false gap ∧ Lexeme t lexeme ∧
      gap ++ lexeme ++ rest = text ∧ (∀ c ∈ rest.head?, t.goesOnWith c = false) ∧
        Written ts rest := by
  constructor
  · intro h
    cases h with
    | cons isGap _ isLexeme others =>
      obtain ⟨hothers, hclear⟩ := writtenAfter_iff.1 others
      exact ⟨_, _, _, isGap, isLexeme, rfl, hclear t rfl, hothers⟩
  · rintro ⟨gap, lexeme, rest, isGap, isLexeme, rfl, hclear, hothers⟩
    exact .cons isGap (by simp) isLexeme (writtenAfter_iff.2 ⟨hothers, by simpa using hclear⟩)

/-- **The written forms of some tokens are the texts through which they can be pulled.** -/
theorem written_iff_reads {c : Cursor} :
    Written ts c.unread ↔ ∃ c₁ c₂, c.Reads ts c₁ ∧ c₁.readNext = (.ok none, c₂) := by
  induction ts generalizing c with
  | nil => simp [written_nil_iff, Cursor.readNext_eq_end_iff]
  | cons t ts ih =>
    rw [written_cons_iff]
    constructor
    · rintro ⟨gap, lexeme, rest, hgap, hlexeme, happend, hrest, hothers⟩
      have first : c.readNext = (.ok (some t), c.advance (gap ++ lexeme) rest) :=
        Cursor.readNext_eq_token_iff.2 ⟨gap, lexeme, rest, hgap, hlexeme, happend, hrest, rfl⟩
      obtain ⟨c₁, c₂, others, hend⟩ := (ih (c := c.advance (gap ++ lexeme) rest)).1 hothers
      exact ⟨c₁, c₂, .cons first others, hend⟩
    · rintro ⟨c₁, c₂, hreads, hend⟩
      obtain ⟨c', first, others⟩ := Cursor.reads_cons_iff.1 hreads
      obtain ⟨gap, lexeme, rest, hgap, hlexeme, happend, hrest, rfl⟩ :=
        Cursor.readNext_eq_token_iff.1 first
      exact ⟨gap, lexeme, rest, hgap, hlexeme, happend, hrest, ih.2 ⟨c₁, c₂, others, hend⟩⟩

/-- **A text is cut into tokens exactly if it is a way to write them.** -/
theorem tokenize_eq_ok_iff_written {source : String} :
    tokenize source = .ok ts ↔ Written ts source.toList :=
  Cursor.result_readAll_eq_ok_iff.trans written_iff_reads.symm

end HostedLisp
