import HostedLisp.Proofs.Token.Reads

/-!
# Tokens before another line

A newline ends every token and every comment, so what is read from a text does not change when
another line is put behind it, as long as reading does not run into the end of the text. A string
that no quote closes does run into it. Where only a gap is left, reading goes on at the start of
the new line.

## Main definitions

* `Cursor.followedBy` — the same place in a text with another line behind it
* `Cursor.beyond` — the start of that line
* `LexError.isFinal` — the errors that no further line can change

## Main results

* `Cursor.readNext_followedBy_of_token`, `Cursor.readNext_followedBy_of_isFinal`,
  `Cursor.readNext_followedBy_of_end` — one token, an error, the end of the text
* `Cursor.readAll_followedBy` — all tokens
-/

namespace HostedLisp

/-- Whether an error stays when further lines follow. A string without an end might be closed by
them. -/
def LexError.isFinal : LexError → Bool
  | .unexpectedChar .. => true
  | .unterminatedString _ => false
  | .integerOverflow .. => true

/-! ### Texts and their fronts -/

namespace Gap

/-- A gap that ends its text, a newline and another gap are one gap. The newline ends the comment
that may be open. -/
theorem newline_append {final : Bool} {before behind : List Char} (hbefore : Gap true before)
    (hbehind : Gap final behind) : Gap final (before ++ '\n' :: behind) := by
  have hnewline : isBlank '\n' = true := by decide
  induction hbefore with
  | nil => exact .blank hnewline hbehind
  | blank hblank _ ih => exact .blank hblank ih
  | @comment text gap htext _ ih =>
    rw [List.cons_append, List.append_assoc]
    exact .comment htext ih
  | last _ htext => exact .comment htext hbehind

end Gap

/-- A gap that something follows is not changed by what comes behind that. -/
theorem splitGap_append_of_ne_nil {cs : List Char} (h : (splitGap cs).2 ≠ []) (more : List Char) :
    splitGap (cs ++ more) = ((splitGap cs).1, (splitGap cs).2 ++ more) := by
  obtain ⟨gap, behind, hcut⟩ : ∃ gap behind, splitGap cs = (gap, behind) := ⟨_, _, rfl⟩
  rw [hcut] at h ⊢
  obtain ⟨rfl, hgap, hrest⟩ := splitGap_eq_iff.1 hcut
  obtain ⟨c, behind, rfl⟩ := List.exists_cons_of_ne_nil h
  exact splitGap_eq_iff.2 ⟨by simp, hgap, hrest⟩

theorem splitGap_newline {before : List Char} (h : Gap true before) (more : List Char) :
    splitGap (before ++ '\n' :: more)
      = (before ++ '\n' :: (splitGap more).1, (splitGap more).2) := by
  refine splitGap_eq_iff.2 ⟨?_, h.newline_append (gap_splitGap more), noLeadingGap_splitGap more⟩
  rw [List.append_assoc, List.cons_append, splitGap_append]

/-- A line that is put behind a text changes what stands at its front only in what is left. -/
def Front.followedBy (more : List Char) : Front → Front
  | .token t lexeme rest => .token t lexeme (rest ++ '\n' :: more)
  | .overflow digits rest => .overflow digits (rest ++ '\n' :: more)
  | found => found

/-- **A newline makes no lexeme longer.** -/
theorem front_newline {cs : List Char} (h : front cs ≠ .nothing) (hquote : front cs ≠ .unterminated)
    (more : List Char) : front (cs ++ '\n' :: more) = (front cs).followedBy more := by
  have hblank : isBlank '\n' ∨ '\n' = ';' := .inl (by decide)
  match hfront : front cs with
  | .nothing => exact absurd hfront h
  | .unterminated => exact absurd hfront hquote
  | .token t lexeme rest =>
    obtain ⟨hlexeme, rfl, hrest⟩ := front_eq_token_iff.1 hfront
    refine front_eq_token_iff.2 ⟨hlexeme, (List.append_assoc ..).symm, ?_⟩
    cases rest with
    | nil => simpa using goesOnWith_of_startsGap hblank t
    | cons d rest => exact hrest
  | .overflow digits rest =>
    obtain ⟨hne, hall, hlarge, rfl, hrest⟩ := front_eq_overflow_iff.1 hfront
    refine front_eq_overflow_iff.2 ⟨hne, hall, hlarge, (List.append_assoc ..).symm, ?_⟩
    cases rest with
    | nil => simp
    | cons d rest => exact hrest
  | .unexpected c =>
    obtain ⟨hhead, hclass⟩ := front_eq_unexpected_iff.1 hfront
    exact front_eq_unexpected_iff.2 ⟨by simp [List.head?_append, hhead], hclass⟩

/-! ### One token -/

namespace Cursor

/-- The same place in a text that goes on with a newline and the line `more`. -/
def followedBy (more : List Char) (c : Cursor) : Cursor :=
  { c with unread := c.unread ++ '\n' :: more }

/-- The start of the line `more`, which a newline sets off from the unread text. -/
def beyond (more : List Char) (c : Cursor) : Cursor := c.advance (c.unread ++ ['\n']) more

variable {c c₁ : Cursor} (more : List Char)

@[simp] theorem unread_followedBy (c : Cursor) :
    (c.followedBy more).unread = c.unread ++ '\n' :: more := rfl

theorem ofString_newline (s t : String) :
    ofString (s ++ "\n" ++ t) = (ofString s).followedBy t.toList := by
  simp [ofString, ofList, followedBy]

/-- Consuming some of the text leaves the next line where it is. -/
theorem beyond_of_leads (h : c.Leads c₁) : c₁.beyond more = c.beyond more := by
  obtain ⟨taken, rest, happend, rfl⟩ := h
  rw [beyond, beyond, advance_advance, unread_advance, ← List.append_assoc, happend]

theorem skipGap_followedBy (h : c.skipGap.unread ≠ []) :
    (c.followedBy more).skipGap = c.skipGap.followedBy more := by
  rw [skipGap, unread_followedBy, splitGap_append_of_ne_nil h]
  rfl

theorem readNext_followedBy {answer : Except LexError (Option Token)}
    (h : c.readNext = (answer, c₁)) (hend : answer ≠ .ok none)
    (hfinal : ∀ e, answer = .error e → e.isFinal) :
    (c.followedBy more).readNext = (answer, c₁.followedBy more) := by
  rw [readNext] at h ⊢
  cases hfound : front c.skipGap.unread with
  | nothing =>
    rw [hfound] at h
    exact absurd (congrArg Prod.fst h).symm hend
  | unterminated =>
    rw [hfound] at h
    exact absurd (hfinal _ (congrArg Prod.fst h).symm) Bool.false_ne_true
  | token _ _ _ | overflow _ _ | unexpected _ =>
    have hne : c.skipGap.unread ≠ [] := by
      intro hnil
      rw [hnil] at hfound
      cases hfound
    rw [skipGap_followedBy more hne, unread_followedBy, front_newline (by simp [hfound])
      (by simp [hfound]), hfound]
    rw [hfound] at h
    cases h
    rfl

/-- **A token is read in the same way before another line.** -/
theorem readNext_followedBy_of_token {t : Token} (h : c.readNext = (.ok (some t), c₁)) :
    (c.followedBy more).readNext = (.ok (some t), c₁.followedBy more) :=
  readNext_followedBy more h (by simp) (by simp)

/-- **An error that no further line can change stays.** -/
theorem readNext_followedBy_of_isFinal {e : LexError} (h : c.readNext = (.error e, c₁))
    (hfinal : e.isFinal) : (c.followedBy more).readNext = (.error e, c₁.followedBy more) :=
  readNext_followedBy more h (by simp) fun e' he => by
    cases he
    exact hfinal

/-- **Where a text ends, reading goes on at the start of the next line.** -/
theorem readNext_followedBy_of_end (h : c.readNext = (.ok none, c₁)) :
    (c.followedBy more).readNext = (c.beyond more).readNext := by
  obtain ⟨hgap, -⟩ := readNext_eq_end_iff.1 h
  have hskip : (c.followedBy more).skipGap = (c.beyond more).skipGap := by
    rw [skipGap, followedBy, splitGap_newline hgap, skipGap, beyond, advance_advance]
    simp [advance]
  rw [readNext, readNext, hskip]

/-! ### All tokens -/

theorem reads_followedBy {ts : List Token} (h : c.Reads ts c₁) :
    (c.followedBy more).Reads ts (c₁.followedBy more) := by
  induction h with
  | nil => exact .nil
  | cons first _ ih => exact .cons (readNext_followedBy_of_token more first) ih

/-- **The tokens of a text and of another line behind it** are those of the one and then those of
the other. -/
theorem readAll_followedBy {ts : List Token} (h : c.readAll.result = .ok ts) :
    (c.followedBy more).readAll
      = { (c.beyond more).readAll with tokens := ts ++ (c.beyond more).readAll.tokens } := by
  obtain ⟨c₁, c₂, hreads, hend⟩ := result_readAll_eq_ok_iff.1 h
  have hbeyond : (c₁.followedBy more).readNext = (c.beyond more).readNext := by
    rw [readNext_followedBy_of_end more hend, beyond_of_leads more (leads_of_reads hreads)]
  rw [readAll, readOnto_of_reads (reads_followedBy more hreads), readOnto_eq, hbeyond,
    ← readOnto_eq, readOnto_eq_readAll]
  simp

theorem result_readAll_followedBy {ts : List Token} (h : c.readAll.result = .ok ts) :
    (c.followedBy more).readAll.result = (c.beyond more).readAll.result.map (ts ++ ·) := by
  rw [readAll_followedBy more h]
  obtain ⟨tokens, error?, last⟩ := (c.beyond more).readAll
  cases error? <;> rfl

end Cursor

end HostedLisp
