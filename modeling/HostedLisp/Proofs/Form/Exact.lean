import HostedLisp.Proofs.Form.Consumed
import HostedLisp.Proofs.Text.Lookahead
import HostedLisp.Proofs.Token.Rendering

/-!
# Exact places

The place that reading has reached is settled by the characters consumed: they and the unread ones
are the text, and the offset, the line and the column are found by counting them. This holds after
any steps, whether they failed or not, and no step but one that reads moves the place.

It is also settled where a step that reads stops. It consumes the lexemes of what it reads and the
gaps in front of them, and nothing behind: no gap and no character that it only looked at. An
unexpected character is not consumed, digits that are too many are, and what needs more text than
there is consumes all of it.

## Main definitions

* `Cursor.Exact` — a place is the one behind some characters of a text
* `Cursor.Takes` — some characters lead from one place to another
* `WrittenTight`, `Answer.EndsAt` — what a step consumes, by its answer

## Main results

* `Cursor.takes_of_reads`, `Cursor.takes_of_readNext_error` — what reading tokens consumes
* `Cursor.takes_step` — what any step consumes
* `Lookahead.step_exact` — places are exact after any steps
-/

namespace HostedLisp

/-! ### Counting characters -/

namespace Cursor

/-- The cursor is at the place of `text` behind the characters `consumed`. -/
structure Exact (text consumed : List Char) (c : Cursor) : Prop where
  /-- What is consumed and what is unread are the text. -/
  text : consumed ++ c.unread = text
  /-- The offset counts the characters consumed. -/
  offset : c.offset = consumed.length
  /-- The line counts the newlines among them. -/
  line : c.pos.line = consumed.count '\n'
  /-- The column counts those behind the last newline. -/
  column : c.pos.column = (consumed.reverse.takeWhile (· != '\n')).length

/-- The characters `taken` at the front of the unread text lead from `c` to `c₁`. -/
def Takes (c : Cursor) (taken : List Char) (c₁ : Cursor) : Prop :=
  taken ++ c₁.unread = c.unread ∧ c₁ = c.advance taken c₁.unread

variable {c c₁ c₂ : Cursor} {s t : List Char}

theorem Takes.nil (c : Cursor) : c.Takes [] c := ⟨rfl, rfl⟩

theorem Takes.trans (h₁ : c.Takes s c₁) (h₂ : c₁.Takes t c₂) : c.Takes (s ++ t) c₂ := by
  obtain ⟨hunread₁, hplace₁⟩ := h₁
  obtain ⟨hunread₂, hplace₂⟩ := h₂
  refine ⟨by rw [List.append_assoc, hunread₂, hunread₁], ?_⟩
  rw [hplace₂, hplace₁, advance_advance]
  rfl

theorem takes_advance {taken rest : List Char} (h : taken ++ rest = c.unread) :
    c.Takes taken (c.advance taken rest) := ⟨h, rfl⟩

/-- **Places reached from the front of a text are exact.** -/
theorem Takes.exact {text consumed : List Char} (h : (ofList text).Takes consumed c) :
    c.Exact text consumed := by
  obtain ⟨htext, hplace⟩ := h
  have hpos : c.pos = Position.origin.after consumed := congrArg Cursor.pos hplace
  refine ⟨htext, ?_, ?_, ?_⟩
  · rw [hplace]
    exact Nat.zero_add _
  · rw [hpos, Position.line_after]
    exact Nat.zero_add _
  · rw [hpos, Position.column_after_origin]

end Cursor

/-! ### Where reading stops -/

/-- The text is a way to write some tokens with nothing behind the lexeme of the last one. No lexeme
could have been longer. -/
def WrittenTight : List Token → List Char → Prop
  | [], text => text = []
  | t :: ts, text => ∃ gap lexeme rest, Gap false gap ∧ Lexeme t lexeme ∧
      gap ++ lexeme ++ rest = text ∧ (∀ d ∈ rest.head?, t.goesOnWith d = false) ∧
      WrittenTight ts rest

/-- Where the text `taken` ends that was consumed up to an error, and what is `rest` then. -/
def LexError.EndsAt (taken rest : List Char) : LexError → Prop
  | .unexpectedChar char _ _ => rest.head? = some char
  | .unterminatedString _ => rest = []
  | .integerOverflow digits _ => digits.toList ≠ [] ∧ (∀ c ∈ digits.toList, c.isDigit) ∧
      (∃ before, before ++ digits.toList = taken) ∧ ∀ c ∈ rest.head?, c.isDigit = false

/-- Where the text `taken` ends that was consumed up to an error, and what is `rest` then. The last
two errors are not met by reading in steps. -/
def ParseError.EndsAt (taken rest : List Char) : ParseError → Prop
  | .lex cause => cause.EndsAt taken rest
  | .callTarget _ => rest = [] ∨ ∃ t before lexeme, Lexeme t lexeme ∧ before ++ lexeme = taken
  | .unexpectedEnd _ _ => rest = []
  | .unexpectedClosing _ => ∃ before, before ++ [')'] = taken
  | .emptyInput | .unexpectedTokens => False

/-- The tokens of an item. -/
def Item.tokens : Item → List Token
  | .expr e => e.tokens
  | .closing => [.closing]

/-- Where the text `taken` ends that was consumed by a step, and what is `rest` then. -/
def Answer.EndsAt (taken rest : List Char) : Answer → Prop
  | .peeked char? => taken = [] ∧ char? = rest.head?
  | .char char? => taken = char?.toList ∧ (char? = none → rest = [])
  | .atEnd ended => taken = [] ∧ (ended = true ↔ rest = [])
  | .token (.ok (some t)) => WrittenTight [t] taken
  | .item (.ok (some i)) => WrittenTight i.tokens taken
  | .call (.ok e) => WrittenTight e.tokens.tail taken
  | .form (.ok (some e)) => WrittenTight e.tokens taken
  | .token (.ok none) | .item (.ok none) | .form (.ok none) => rest = []
  | .token (.error cause) => cause.EndsAt taken rest
  | .item (.error cause) | .call (.error cause) | .form (.error cause) => cause.EndsAt taken rest

variable {before taken rest : List Char}

theorem LexError.EndsAt.prepend {cause : LexError} (h : cause.EndsAt taken rest) :
    cause.EndsAt (before ++ taken) rest := by
  cases cause with
  | unexpectedChar _ _ _ | unterminatedString _ => exact h
  | integerOverflow digits _ =>
    obtain ⟨hne, hall, ⟨front, rfl⟩, hrest⟩ := h
    exact ⟨hne, hall, ⟨before ++ front, List.append_assoc ..⟩, hrest⟩

theorem ParseError.EndsAt.prepend {cause : ParseError} (h : cause.EndsAt taken rest) :
    cause.EndsAt (before ++ taken) rest := by
  cases cause with
  | lex cause => exact LexError.EndsAt.prepend h
  | callTarget _ =>
    rcases h with hrest | ⟨t, front, lexeme, hlexeme, rfl⟩
    · exact .inl hrest
    · exact .inr ⟨t, before ++ front, lexeme, hlexeme, List.append_assoc ..⟩
  | unexpectedEnd _ _ => exact h
  | unexpectedClosing _ =>
    obtain ⟨front, rfl⟩ := h
    exact ⟨before ++ front, List.append_assoc ..⟩
  | emptyInput | unexpectedTokens => exact h

/-- Inside a call a text ends with everything consumed. -/
theorem endsAt_unexpectedEnd (call : OpenCall) (pos : Position) :
    (call.unexpectedEnd pos).EndsAt taken [] := by
  rw [OpenCall.unexpectedEnd]
  cases call.head? with
  | none => exact .inl rfl
  | some head => exact rfl

namespace Cursor

variable {c c₁ : Cursor} {ts : List Token}

/-! ### Tokens -/

/-- **A token is consumed up to the end of its lexeme**, with the gap in front of it. -/
theorem takes_of_readNext_token {t : Token} (h : c.readNext = (.ok (some t), c₁)) :
    ∃ gap lexeme, c.Takes (gap ++ lexeme) c₁ ∧ Gap false gap ∧ Lexeme t lexeme ∧
      ∀ d ∈ c₁.unread.head?, t.goesOnWith d = false := by
  obtain ⟨gap, lexeme, rest, hgap, hlexeme, happend, hrest, rfl⟩ := readNext_eq_token_iff.1 h
  exact ⟨gap, lexeme, takes_advance happend, hgap, hlexeme, hrest⟩

/-- **Tokens are consumed up to the end of the last lexeme.** -/
theorem takes_of_reads (h : c.Reads ts c₁) : ∃ taken, c.Takes taken c₁ ∧ WrittenTight ts taken := by
  induction h with
  | nil => exact ⟨[], .nil _, rfl⟩
  | @cons c c' c₁ t ts first _ ih =>
    obtain ⟨gap, lexeme, htakes, hgap, hlexeme, hclear⟩ := takes_of_readNext_token first
    obtain ⟨taken, htaken, htight⟩ := ih
    refine ⟨_, htakes.trans htaken, gap, lexeme, taken, hgap, hlexeme, rfl, ?_, htight⟩
    -- What is taken next starts like the text that was unread before it.
    intro d hd
    refine hclear d ?_
    rw [← htaken.1, List.head?_append, Option.mem_def.1 hd]
    rfl

theorem takes_of_readNext_end (h : c.readNext = (.ok none, c₁)) :
    c.Takes c.unread c₁ ∧ c₁.unread = [] := by
  obtain ⟨-, rfl⟩ := readNext_eq_end_iff.1 h
  exact ⟨takes_advance (List.append_nil _), rfl⟩

/-- **Where an error of reading a token stops.** -/
theorem takes_of_readNext_error {cause : LexError} (h : c.readNext = (.error cause, c₁)) :
    ∃ taken, c.Takes taken c₁ ∧ cause.EndsAt taken c₁.unread := by
  have hgap : c.Takes (splitGap c.unread).1 c.skipGap := takes_advance (splitGap_append c.unread)
  rw [readNext] at h
  cases hfront : front c.skipGap.unread with
  | nothing | token _ _ _ =>
    rw [hfront] at h
    cases h
  | overflow digits rest =>
    rw [hfront] at h
    cases h
    obtain ⟨hne, hall, -, happend, hrest⟩ := front_eq_overflow_iff.1 hfront
    refine ⟨_, hgap.trans (takes_advance happend), ?_⟩
    rw [LexError.EndsAt, String.toList_ofList]
    exact ⟨hne, hall, ⟨_, rfl⟩, hrest⟩
  | unterminated =>
    rw [hfront] at h
    cases h
    exact ⟨_, hgap.trans (takes_advance (List.append_nil _)), rfl⟩
  | unexpected char =>
    rw [hfront] at h
    cases h
    exact ⟨_, hgap, (front_eq_unexpected_iff.1 hfront).1⟩

/-! ### Forms -/

/-- **Where an error inside calls stops.** The induction is on the tokens read before it. -/
theorem takes_of_readInside_error {calls : OpenCalls} {events : Array Event} {cause : ParseError}
    (h : (c.readInside calls events).answer = .error cause) :
    ∃ taken, c.Takes taken (c.readInside calls events).cursor ∧
      cause.EndsAt taken (c.readInside calls events).cursor.unread := by
  fun_induction readInside calls events c with
  | case1 calls events c e c' hnext =>
    cases h
    exact takes_of_readNext_error hnext
  | case2 calls events c c' hnext =>
    cases h
    obtain ⟨htakes, hend⟩ := takes_of_readNext_end hnext
    refine ⟨_, htakes, ?_⟩
    rw [hend]
    exact endsAt_unexpectedEnd ..
  | case3 calls events c token c' hnext hfeed =>
    cases h
    obtain ⟨gap, lexeme, htakes, -, hlexeme, -⟩ := takes_of_readNext_token hnext
    exact ⟨_, htakes, .inr ⟨token, gap, lexeme, hlexeme, rfl⟩⟩
  | case4 => cases h
  | case5 calls events c token c' hnext calls' hfeed ih =>
    obtain ⟨gap, lexeme, htakes, -⟩ := takes_of_readNext_token hnext
    obtain ⟨taken, htaken, hends⟩ := ih h
    exact ⟨_, htakes.trans htaken, hends.prepend⟩

/-- **What the rest of a call consumes.** -/
theorem takes_readCall (c : Cursor) : ∃ taken, c.Takes taken c.readCall.cursor ∧
    (Answer.call c.readCall.answer).EndsAt taken c.readCall.cursor.unread := by
  match hanswer : c.readCall.answer with
  | .error cause => exact takes_of_readInside_error hanswer
  | .ok e =>
    obtain ⟨ts, hreads, htokens, -⟩ := reads_of_readInside OpenCalls.plain_start hanswer
    have htail : e.tokens.tail = ts := congrArg List.tail htokens
    obtain ⟨taken, htaken, htight⟩ := takes_of_reads hreads
    rw [← htail] at htight
    exact ⟨taken, htaken, htight⟩

/-- **What an item consumes.** -/
theorem takes_readItem (c : Cursor) : ∃ taken, c.Takes taken c.readItem.cursor ∧
    (Answer.item c.readItem.answer).EndsAt taken c.readItem.cursor.unread := by
  have expr {e : Expr} (h : c.readItem.answer = .ok (some (.expr e))) :
      ∃ taken, c.Takes taken c.readItem.cursor ∧
        (Answer.item c.readItem.answer).EndsAt taken c.readItem.cursor.unread := by
    obtain ⟨taken, htaken, htight⟩ := takes_of_reads (reads_of_readItem h).1
    rw [h]
    exact ⟨taken, htaken, htight⟩
  match hnext : c.readNext with
  | (.error cause, c') =>
    have hitem : c.readItem = ⟨.error (.lex cause), c', #[]⟩ := by rw [readItem, hnext]
    rw [hitem]
    exact takes_of_readNext_error hnext
  | (.ok none, c') =>
    have hitem : c.readItem = ⟨.ok none, c', #[]⟩ := by rw [readItem, hnext]
    rw [hitem]
    exact ⟨_, takes_of_readNext_end hnext⟩
  | (.ok (some .closing), c') =>
    have hitem : c.readItem = ⟨.ok (some .closing), c', #[.read .closing]⟩ := by
      rw [readItem, hnext]
    rw [hitem]
    exact takes_of_reads (.cons hnext .nil)
  | (.ok (some (.integer _)), c') | (.ok (some (.string _)), c')
  | (.ok (some (.identifier _)), c') => exact expr (by rw [readItem, hnext])
  | (.ok (some .opening), c') =>
    cases hinside : (c'.readInside .start #[.read .opening]).answer with
    | ok e => exact expr (e := e) (by simp [readItem, hnext, hinside, Except.map])
    | error cause =>
      obtain ⟨gap, lexeme, htakes, -⟩ := takes_of_readNext_token hnext
      obtain ⟨taken, htaken, hends⟩ := takes_of_readInside_error hinside
      have hanswer : c.readItem.answer = .error cause := by
        simp [readItem, hnext, hinside, Except.map]
      have hcursor : c.readItem.cursor = (c'.readInside .start #[.read .opening]).cursor := by
        simp [readItem, hnext]
      rw [hanswer, hcursor]
      exact ⟨_, htakes.trans htaken, hends.prepend⟩

/-- **What a form consumes.** -/
theorem takes_readForm (c : Cursor) : ∃ taken, c.Takes taken c.readForm.cursor ∧
    (Answer.form c.readForm.answer).EndsAt taken c.readForm.cursor.unread := by
  obtain ⟨taken, htaken, hends⟩ := takes_readItem c
  rw [cursor_readForm]
  refine ⟨taken, htaken, ?_⟩
  rw [readForm]
  split
  · next hitem =>
    rw [hitem] at hends
    exact hends
  · next hitem =>
    rw [hitem] at hends
    exact hends
  · next hitem =>
    -- The closing parenthesis that is refused has been consumed.
    rw [hitem] at hends
    obtain ⟨gap, lexeme, rest, -, hlexeme, rfl, -, rfl⟩ := hends
    cases hlexeme
    exact ⟨gap, (List.append_nil _).symm⟩
  · next hitem =>
    rw [hitem] at hends
    exact hends

/-! ### Any step -/

/-- **What a step consumes.** -/
theorem takes_step (c : Cursor) (s : Step) : ∃ taken, c.Takes taken (c.step s).2 ∧
    (c.step s).1.answer.EndsAt taken (c.step s).2.unread := by
  cases s with
  | peek => exact ⟨[], .nil c, rfl, rfl⟩
  | atEnd => exact ⟨[], .nil c, rfl, List.isEmpty_iff⟩
  | next =>
    refine ⟨c.unread.take 1, takes_advance (List.take_append_drop ..), ?_⟩
    change _ = _ ∧ (_ → List.drop 1 c.unread = [])
    cases c.unread <;> simp
  | token =>
    match hnext : c.readNext with
    | (.error cause, c') =>
      rw [step, hnext]
      exact takes_of_readNext_error hnext
    | (.ok none, c') =>
      rw [step, hnext]
      exact ⟨_, takes_of_readNext_end hnext⟩
    | (.ok (some t), c') =>
      rw [step, hnext]
      exact takes_of_reads (.cons hnext .nil)
  | item => exact takes_readItem c
  | call => exact takes_readCall c
  | form => exact takes_readForm c

end Cursor

namespace Lookahead

/-- Any steps consume some characters from the front. -/
theorem takes_run {r : Lookahead (List Char)} (h : r.Faithful) (steps : List Step) :
    ∃ taken, r.toCursor.Takes taken (r.run steps).2.toCursor := by
  induction steps generalizing r with
  | nil => exact ⟨[], .nil _⟩
  | cons s steps ih =>
    obtain ⟨-, hnext, hfaithful⟩ := step_eq h s
    obtain ⟨taken, htakes, -⟩ := r.toCursor.takes_step s
    obtain ⟨more, hmore⟩ := ih hfaithful
    rw [hnext] at hmore
    exact ⟨taken ++ more, htakes.trans hmore⟩

/-- **Places are exact after any steps**, and after one step more, which consumes the text that
belongs to its answer and reports the place it has reached. Peeking and asking for the end leave the
place as it is. -/
theorem step_exact (source : String) (steps : List Step) (s : Step) :
    let r := ((ofString source).run steps).2
    let r' := (r.step s).2
    (∃ consumed taken, r.toCursor.Exact source.toList consumed ∧
        r'.toCursor.Exact source.toList (consumed ++ taken) ∧
        (r.step s).1.answer.EndsAt taken r'.unread ∧ (r.step s).1.pos = r'.pos) ∧
      (r.step .peek).2.toCursor = r.toCursor ∧ (r.step .atEnd).2.toCursor = r.toCursor := by
  intro r r'
  have hfaithful : r.Faithful := faithful_run (faithful_ofString source) steps
  obtain ⟨consumed, hconsumed⟩ := takes_run (faithful_ofString source) steps
  obtain ⟨hreport, hplace, -⟩ := step_eq hfaithful s
  obtain ⟨taken, htaken, hends⟩ := r.toCursor.takes_step s
  rw [← hreport, ← hplace] at hends
  rw [← hplace] at htaken
  refine ⟨⟨consumed, taken, hconsumed.exact, (hconsumed.trans htaken).exact, hends, ?_⟩,
    (step_eq hfaithful .peek).2.1, (step_eq hfaithful .atEnd).2.1⟩
  cases s <;> rfl

end Lookahead

end HostedLisp
