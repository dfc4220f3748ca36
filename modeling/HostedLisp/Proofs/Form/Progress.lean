import HostedLisp.Proofs.Form.Exact
import HostedLisp.Proofs.Form.Inside
import HostedLisp.Proofs.Form.Pulled
import HostedLisp.Proofs.Form.Run

/-!
# Progress of single steps

Every step that reads consumes a character, unless it answers that there is nothing more or that an
unexpected character stands there. Both of these answers are final. Where there is nothing more the
text has been consumed, and an unexpected character is left unread, so whatever is read next, by
steps of any kind, meets it again.

A step also pulls no more tokens than it consumes characters, which bounds the loops inside it, and
that of runs over forms.

## Main definitions

* `Cursor.StuckAt` — an unexpected character is the next thing to read
* `Answer.isNothing`, `Answer.refused?` — the two final answers
* `Cursor.tokenCount` — the number of tokens that some events tell of

## Main results

* `Cursor.length_step_lt` — a step that gives another answer consumes a character
* `Cursor.step_of_end`, `Cursor.step_of_stuckAt` — final answers come again
* `Cursor.tokenCount_step_add_le` — no more tokens than characters
-/

namespace HostedLisp

/-! ### Final answers -/

/-- Whether a step pulls tokens. -/
def Step.pulls : Step → Bool
  | .token | .item | .call | .form => true
  | _ => false

/-- Whether a step pulls tokens and begins in no call. -/
def Step.beginsOutside : Step → Bool
  | .token | .item | .form => true
  | _ => false

/-- The unexpected character that an error tells of, its code point and its place. -/
def LexError.refused? : LexError → Option (Char × UInt32 × Position)
  | .unexpectedChar char code pos => some (char, code, pos)
  | _ => none

/-- The unexpected character that an error tells of, its code point and its place. -/
def ParseError.refused? : ParseError → Option (Char × UInt32 × Position)
  | .lex cause => cause.refused?
  | _ => none

namespace Answer

/-- Whether a step that pulls tokens answers that there is nothing more. -/
def isNothing : Answer → Bool
  | .token (.ok none) | .item (.ok none) | .form (.ok none) => true
  | _ => false

/-- The unexpected character that an answer tells of, its code point and its place. -/
def refused? : Answer → Option (Char × UInt32 × Position)
  | .token (.error cause) => cause.refused?
  | .item (.error cause) | .call (.error cause) | .form (.error cause) => cause.refused?
  | _ => none

end Answer

section

variable {char : Char} {code : UInt32} {pos : Position}

theorem LexError.refused?_eq_some_iff {cause : LexError} :
    cause.refused? = some (char, code, pos) ↔ cause = .unexpectedChar char code pos := by
  cases cause <;> simp [refused?]

theorem ParseError.refused?_eq_some_iff {cause : ParseError} :
    cause.refused? = some (char, code, pos) ↔ cause = .lex (.unexpectedChar char code pos) := by
  cases cause <;> simp [refused?, LexError.refused?_eq_some_iff]

end

/-- The text ends inside a call, and no character is to blame. -/
theorem OpenCall.refused?_unexpectedEnd (call : OpenCall) (pos : Position) :
    (call.unexpectedEnd pos).refused? = none := by
  rw [unexpectedEnd]
  cases call.head? <;> rfl

namespace Cursor

variable {c c₁ : Cursor} {char : Char} {code : UInt32} {pos : Position}

/-! ### Tokens -/

/-- An unexpected character is the next thing to read, and no gap stands before it. -/
def StuckAt (char : Char) (code : UInt32) (pos : Position) (c : Cursor) : Prop :=
  c.readNext = (.error (.unexpectedChar char code pos), c)

/-- Nothing is skipped where there is no gap. -/
theorem skipGap_of_noLeadingGap (h : NoLeadingGap c.unread) : c.skipGap = c := by
  have hcut : splitGap c.unread = ([], c.unread) := by
    refine splitGap_eq_iff.2 ⟨rfl, .nil, h⟩
  rw [skipGap, hcut]
  rfl

/-- **An unexpected character is left unread**, with the gap before it consumed. -/
theorem stuckAt_of_readNext (h : c.readNext = (.error (.unexpectedChar char code pos), c₁)) :
    c₁.StuckAt char code pos := by
  rw [readNext] at h
  cases hfront : front c.skipGap.unread with
  | nothing | token _ _ _ | overflow _ _ | unterminated =>
    rw [hfront] at h
    cases h
  | unexpected d =>
    rw [hfront] at h
    cases h
    have hskip : c.skipGap.skipGap = c.skipGap :=
      skipGap_of_noLeadingGap (noLeadingGap_splitGap c.unread)
    rw [StuckAt, readNext, hskip, hfront]

theorem unread_of_readNext_end (h : c.readNext = (.ok none, c₁)) : c₁.unread = [] := by
  obtain ⟨-, rfl⟩ := readNext_eq_end_iff.1 h
  rfl

/-- **An error other than an unexpected character costs a character.** -/
theorem length_readNext_error_lt {cause : LexError} (h : c.readNext = (.error cause, c₁))
    (hcause : cause.refused? = none) : c₁.unread.length < c.unread.length := by
  have hgap := c.length_skipGap_le
  rw [readNext] at h
  cases hfront : front c.skipGap.unread with
  | nothing | token _ _ _ =>
    rw [hfront] at h
    cases h
  | overflow digits rest =>
    rw [hfront] at h
    cases h
    obtain ⟨hne, -, -, happend, -⟩ := front_eq_overflow_iff.1 hfront
    have hpos := List.length_pos_iff.2 hne
    rw [← happend, List.length_append] at hgap
    rw [unread_advance]
    omega
  | unterminated =>
    rw [hfront] at h
    cases h
    -- The quote itself is there to be consumed.
    have hpos : 0 < c.skipGap.unread.length := by
      refine List.length_pos_iff.2 fun hnil => ?_
      rw [hnil] at hfront
      cases hfront
    rw [unread_advance, List.length_nil]
    omega
  | unexpected d =>
    rw [hfront] at h
    cases h
    cases hcause

/-! ### Forms -/

/-- **Inside calls an unexpected character is left unread too.** -/
theorem stuckAt_of_readInside {calls : OpenCalls} {events : Array Event}
    (h : (c.readInside calls events).answer = .error (.lex (.unexpectedChar char code pos))) :
    (c.readInside calls events).cursor.StuckAt char code pos := by
  fun_induction readInside calls events c with
  | case1 calls events c e c' hnext =>
    cases h
    exact stuckAt_of_readNext hnext
  | case2 calls events c c' hnext =>
    have hnone := calls.innermost.refused?_unexpectedEnd c'.pos
    rw [Except.error.inj h] at hnone
    cases hnone
  | case3 | case4 => cases h
  | case5 calls events c token c' hnext calls' hfeed ih => exact ih h

theorem stuckAt_of_readItem
    (h : c.readItem.answer = .error (.lex (.unexpectedChar char code pos))) :
    c.readItem.cursor.StuckAt char code pos := by
  rcases error_of_readItem h with ⟨e, c', hnext, he, hcursor⟩ | ⟨c', -, hinside, hcursor⟩
  · cases he
    rw [hcursor]
    exact stuckAt_of_readNext hnext
  · rw [hcursor]
    exact stuckAt_of_readInside hinside

theorem unread_of_readItem_end (h : c.readItem.answer = .ok none) :
    c.readItem.cursor.unread = [] := by
  obtain ⟨c', hnext, hcursor⟩ := end_of_readItem h
  rw [hcursor]
  exact unread_of_readNext_end hnext

/-- **An item costs a character**, also one that cannot be read: its first token is consumed. -/
theorem length_readItem_error_lt {cause : ParseError} (h : c.readItem.answer = .error cause)
    (hcause : cause.refused? = none) : c.readItem.cursor.unread.length < c.unread.length := by
  rcases error_of_readItem h with ⟨e, c', hnext, rfl, hcursor⟩ | ⟨c', hnext, -, hcursor⟩
  · rw [hcursor]
    exact length_readNext_error_lt hnext hcause
  · have hlt := length_readNext_lt hnext
    have hle := length_readInside_le .start #[.read .opening] c'
    rw [hcursor]
    exact Nat.lt_of_le_of_lt hle hlt

/-- A form is an item but for the closing parenthesis that it refuses, so the two stop at the same
place and give the same final answers. -/
theorem step_form_eq_item (c : Cursor) :
    (c.step .form).2 = (c.step .item).2 ∧
      (c.step .form).1.answer.isNothing = (c.step .item).1.answer.isNothing ∧
      (c.step .form).1.answer.refused? = (c.step .item).1.answer.refused? := by
  refine ⟨c.cursor_readForm, ?_⟩
  have hform : (c.step .form).1.answer = .form c.readForm.answer := rfl
  have hitem : (c.step .item).1.answer = .item c.readItem.answer := rfl
  rw [hform, hitem, readForm]
  split <;> next h =>
    rw [h]
    exact ⟨rfl, rfl⟩

/-! ### Steps -/

/-- **Nothing more is answered only behind all of the text.** -/
theorem unread_step_of_isNothing {s : Step} (h : (c.step s).1.answer.isNothing) :
    (c.step s).2.unread = [] := by
  have item (h : (c.step .item).1.answer.isNothing) : (c.step .item).2.unread = [] := by
    have hanswer : (c.step .item).1.answer = .item c.readItem.answer := rfl
    rw [hanswer] at h
    match hitem : c.readItem.answer with
    | .ok none => exact unread_of_readItem_end hitem
    | .ok (some i) | .error cause =>
      rw [hitem] at h
      cases h
  cases s with
  | peek | next | atEnd | call => cases h
  | token =>
    match hnext : c.readNext with
    | (.ok none, c') =>
      rw [step, hnext]
      exact unread_of_readNext_end hnext
    | (.ok (some t), c') | (.error cause, c') =>
      rw [step, hnext] at h
      cases h
  | item => exact item h
  | form =>
    obtain ⟨hcursor, hnothing, -⟩ := c.step_form_eq_item
    rw [hcursor]
    exact item (hnothing ▸ h)

/-- **Behind a refused character the reader is stuck at it.** -/
theorem stuckAt_step_of_refused {s : Step}
    (h : (c.step s).1.answer.refused? = some (char, code, pos)) :
    (c.step s).2.StuckAt char code pos := by
  have item (h : (c.step .item).1.answer.refused? = some (char, code, pos)) :
      (c.step .item).2.StuckAt char code pos := by
    have hanswer : (c.step .item).1.answer = .item c.readItem.answer := rfl
    rw [hanswer] at h
    cases hitem : c.readItem.answer with
    | ok item? =>
      rw [hitem] at h
      cases h
    | error cause =>
      rw [hitem] at h
      obtain rfl := ParseError.refused?_eq_some_iff.1 h
      exact stuckAt_of_readItem hitem
  cases s with
  | peek | next | atEnd => cases h
  | token =>
    match hnext : c.readNext with
    | (.ok token?, c') =>
      rw [step, hnext] at h
      cases h
    | (.error cause, c') =>
      rw [step, hnext] at h ⊢
      obtain rfl := LexError.refused?_eq_some_iff.1 h
      exact stuckAt_of_readNext hnext
  | item => exact item h
  | call =>
    have hanswer : (c.step .call).1.answer = .call c.readCall.answer := rfl
    rw [hanswer] at h
    cases hcall : c.readCall.answer with
    | ok e =>
      rw [hcall] at h
      cases h
    | error cause =>
      rw [hcall] at h
      obtain rfl := ParseError.refused?_eq_some_iff.1 h
      exact stuckAt_of_readInside hcall
  | form =>
    obtain ⟨hcursor, -, hrefused⟩ := c.step_form_eq_item
    rw [hcursor]
    exact item (hrefused ▸ h)

/-- **Any other answer costs a character.** -/
theorem length_step_lt {s : Step} (hs : s.beginsOutside)
    (hnothing : (c.step s).1.answer.isNothing = false)
    (hrefused : (c.step s).1.answer.refused? = none) :
    (c.step s).2.unread.length < c.unread.length := by
  have item (hnothing : (c.step .item).1.answer.isNothing = false)
      (hrefused : (c.step .item).1.answer.refused? = none) :
      (c.step .item).2.unread.length < c.unread.length := by
    have hanswer : (c.step .item).1.answer = .item c.readItem.answer := rfl
    rw [hanswer] at hnothing hrefused
    match hitem : c.readItem.answer with
    | .ok none =>
      rw [hitem] at hnothing
      cases hnothing
    | .ok (some i) => exact length_readItem_lt hitem
    | .error cause =>
      rw [hitem] at hrefused
      exact length_readItem_error_lt hitem hrefused
  cases s with
  | peek | next | atEnd | call => cases hs
  | token =>
    match hnext : c.readNext with
    | (.ok none, c') =>
      rw [step, hnext] at hnothing
      cases hnothing
    | (.ok (some t), c') =>
      rw [step, hnext]
      exact length_readNext_lt hnext
    | (.error cause, c') =>
      rw [step, hnext] at hrefused ⊢
      exact length_readNext_error_lt hnext hrefused
  | item => exact item hnothing hrefused
  | form =>
    obtain ⟨hcursor, hnothing', hrefused'⟩ := c.step_form_eq_item
    rw [hcursor]
    exact item (hnothing' ▸ hnothing) (hrefused' ▸ hrefused)

/-- **At the end of the text** every step stays there and finds nothing more. -/
theorem step_of_end (h : c.unread = []) (s : Step) :
    (c.step s).2.unread = [] ∧ (s.beginsOutside → (c.step s).1.answer.isNothing) := by
  have hnext : c.readNext = (.ok none, c.advance c.unread []) :=
    readNext_eq_end_iff.2 ⟨h ▸ .nil, rfl⟩
  constructor
  · obtain ⟨taken, ⟨hunread, -⟩, -⟩ := c.takes_step s
    rw [h] at hunread
    exact (List.append_eq_nil_iff.1 hunread).2
  · intro hs
    cases s with
    | peek | next | atEnd | call => cases hs
    | token =>
      rw [step, hnext]
      rfl
    | item =>
      rw [step, readItem, hnext]
      rfl
    | form =>
      rw [step, readForm_of_end hnext]
      rfl

/-- **At an unexpected character** every step but the one that hands out characters stays there,
and every one that pulls tokens meets it. -/
theorem step_of_stuckAt (h : c.StuckAt char code pos) {s : Step} (hs : s ≠ .next) :
    (c.step s).2 = c ∧ (s.pulls → (c.step s).1.answer.refused? = some (char, code, pos)) := by
  have hitem : c.readItem = ⟨.error (.lex (.unexpectedChar char code pos)), c, #[]⟩ := by
    rw [readItem, h]
  have hcall : c.readCall = ⟨.error (.lex (.unexpectedChar char code pos)), c, #[]⟩ :=
    readInside_of_error h .start #[]
  have hform : c.readForm = ⟨.error (.lex (.unexpectedChar char code pos)), c, #[]⟩ := by
    rw [readForm, hitem]
  cases s with
  | next => exact absurd rfl hs
  | peek | atEnd => exact ⟨rfl, fun hpulls => by cases hpulls⟩
  | token =>
    rw [step, h]
    exact ⟨rfl, fun _ => rfl⟩
  | item =>
    rw [step, hitem]
    exact ⟨rfl, fun _ => rfl⟩
  | call =>
    rw [step, hcall]
    exact ⟨rfl, fun _ => rfl⟩
  | form =>
    rw [step, hform]
    exact ⟨rfl, fun _ => rfl⟩

/-! ### The number of tokens -/

/-- The number of tokens that some events tell of. -/
def tokenCount (events : Array Event) : Nat :=
  events.toList.countP fun
    | .read _ => true
    | _ => false

theorem tokenCount_reads (ts : List Token) :
    tokenCount (ts.map Event.read).toArray = ts.length := by
  simp [tokenCount, List.countP_map, Function.comp_def]

theorem tokenCount_append (events more : Array Event) :
    tokenCount (events ++ more) = tokenCount events + tokenCount more := by
  rw [tokenCount, Array.toList_append, List.countP_append]
  rfl

theorem tokenCount_push_parsed (events : Array Event) (stop : Position) :
    tokenCount (events.push (.parsed stop)) = tokenCount events := by
  rw [← Array.append_singleton, tokenCount_append]
  rfl

/-- Reading that tells of the tokens it pulls tells of no more of them than it consumes
characters. -/
theorem tokenCount_add_le_of_pulls {ts : List Token} (h : c.Pulls ts c₁) :
    tokenCount (ts.map Event.read).toArray + c₁.unread.length ≤ c.unread.length := by
  rw [tokenCount_reads]
  exact length_add_le_of_pulls h

theorem tokenCount_readForm_add_le (c : Cursor) :
    tokenCount c.readForm.events + c.readForm.cursor.unread.length ≤ c.unread.length := by
  obtain ⟨ts, hpulls, hevents⟩ := c.pulls_readItem
  have hcount : tokenCount c.readForm.events = tokenCount c.readItem.events := by
    rw [readForm]
    split
    · rfl
    · rfl
    · rfl
    · exact tokenCount_push_parsed ..
  rw [hcount, hevents, cursor_readForm]
  exact tokenCount_add_le_of_pulls hpulls

/-- **A step pulls no more tokens than it consumes characters.** -/
theorem tokenCount_step_add_le (c : Cursor) (s : Step) :
    tokenCount (c.step s).1.events + (c.step s).2.unread.length ≤ c.unread.length := by
  have other (h : (c.step s).1.events = #[]) :
      tokenCount (c.step s).1.events + (c.step s).2.unread.length ≤ c.unread.length := by
    obtain ⟨taken, ⟨hunread, -⟩, -⟩ := c.takes_step s
    rw [h, ← hunread, List.length_append]
    exact Nat.add_le_add_right (Nat.zero_le _) _
  cases s with
  | peek | next | atEnd => exact other rfl
  | token =>
    match hnext : c.readNext with
    | (.ok (some t), c') =>
      rw [step, hnext]
      exact tokenCount_add_le_of_pulls (Reads.cons hnext .nil).pulls
    | (.ok none, c') | (.error cause, c') => exact other (by rw [step, hnext]; rfl)
  | item =>
    obtain ⟨ts, hpulls, hevents⟩ := c.pulls_readItem
    have hcount := tokenCount_add_le_of_pulls hpulls
    rwa [← hevents] at hcount
  | call =>
    obtain ⟨ts, hpulls, hevents⟩ := pulls_readInside .start #[] c
    have hcount := tokenCount_add_le_of_pulls hpulls
    rw [Array.empty_append] at hevents
    rwa [← hevents] at hcount
  | form => exact c.tokenCount_readForm_add_le

/-- **Reading all forms** pulls no more tokens than it consumes characters. -/
theorem tokenCount_readForms_add_le (c : Cursor) :
    tokenCount c.readForms.events + c.readForms.cursor.unread.length ≤ c.unread.length := by
  have hform := c.tokenCount_readForm_add_le
  induction c using formsInduction with
  | error c cause h =>
    rw [readForms_of_error h]
    exact hform
  | finish c h =>
    rw [readForms_of_end h]
    exact hform
  | form c e h ih =>
    have hothers := ih c.readForm.cursor.tokenCount_readForm_add_le
    rw [readForms_of_form h]
    dsimp only
    rw [tokenCount_append]
    omega

/-- **Reading a text as one form** pulls no more tokens than it consumes characters. -/
theorem tokenCount_readOnlyForm_add_le (c : Cursor) :
    tokenCount c.readOnlyForm.events + c.readOnlyForm.cursor.unread.length ≤ c.unread.length := by
  have hform := c.tokenCount_readForm_add_le
  rw [readOnlyForm]
  split
  · exact hform
  · exact hform
  · -- One token more is pulled behind the form.
    have htoken := c.readForm.cursor.tokenCount_step_add_le .token
    have hevents : (c.readForm.cursor.step .token).1.events
        = tokenEvents c.readForm.cursor.readNext.1 := rfl
    have hcursor : (c.readForm.cursor.step .token).2 = c.readForm.cursor.readNext.2 := rfl
    rw [hevents, hcursor] at htoken
    split
    · next hnext =>
      rw [hnext] at htoken
      dsimp only at htoken ⊢
      omega
    · next hnext =>
      rw [hnext] at htoken
      dsimp only at htoken ⊢
      omega
    · next t c' hnext =>
      rw [hnext] at htoken
      dsimp only [tokenEvents] at htoken ⊢
      rw [← Array.append_singleton, tokenCount_append]
      omega

end Cursor

end HostedLisp
