import HostedLisp.Form.Read
import HostedLisp.Proofs.Form.Feed
import HostedLisp.Proofs.Token.Reads

/-!
# Forms are read exactly from their tokens

Reading a form pulls the tokens of some expression and nothing behind them, and every expression
whose tokens can be pulled is read as a form, unless it has the name of a truth value in the place
of another name. So a text is a sequence of forms exactly if its tokens are those of the forms.

Reading the inside of calls takes each token as it is pulled. What was pulled and what the open
calls remember therefore always agree, and at the closing parenthesis of the outermost call the
tokens remembered are those of the whole expression.

## Main results

* `Cursor.reads_of_readInside`, `Cursor.readInside_of_feeds` — the inside of calls
* `Cursor.reads_of_readForm`, `Cursor.readForm_of_reads` — one form
* `Cursor.end_of_readItem`, `Cursor.error_of_readItem` — where there is none, and where one fails
* `Cursor.result_readForms_eq_ok_iff`, `Cursor.answer_readOnlyForm_eq_ok_iff` — whole texts
* `parseScript_eq_ok_iff` — a text is a script exactly if its tokens are those of the forms
-/

namespace HostedLisp

open HostedLisp.Expr

namespace Cursor

variable {c c₁ c₂ : Cursor} {calls calls₁ : OpenCalls} {e : Expr} {es : List Expr} {t : Token}
  {ts : List Token}

/-! ### The inside of calls -/

/-- **What is read inside open calls are the tokens that they lack.** The induction is on the tokens
pulled, each of which keeps the invariant of the open calls. -/
theorem reads_of_readInside {events : Array Event} (plain : calls.Plain)
    (h : (c.readInside calls events).answer = .ok e) :
    ∃ ts, c.Reads ts (c.readInside calls events).cursor ∧ e.tokens = calls.tokens ++ ts ∧
      e.Plain := by
  fun_induction readInside calls events c with
  | case1 | case2 | case3 => cases h
  | case4 calls events c token c' hnext e' hfeed =>
    cases h
    obtain ⟨he, htokens⟩ := OpenCalls.tokens_of_feed? hfeed plain
    exact ⟨[token], .cons hnext .nil, htokens, he⟩
  | case5 calls events c token c' hnext calls' hfeed ih =>
    obtain ⟨hcalls, htokens⟩ := OpenCalls.tokens_of_feed?_reading hfeed plain
    obtain ⟨ts, hreads, htokens', he⟩ := ih hcalls h
    refine ⟨token :: ts, .cons hnext hreads, ?_, he⟩
    rw [htokens', htokens, List.append_assoc]
    rfl

theorem readInside_of_token (h : c.readNext = (.ok (some t), c₁)) (calls : OpenCalls)
    (events : Array Event) :
    c.readInside calls events = match calls.feed? t with
      | none => ⟨.error (.callTarget c₁.pos), c₁, events.push (.read t)⟩
      | some (.complete e) => ⟨.ok e, c₁, events.push (.read t)⟩
      | some (.reading calls) => c₁.readInside calls (events.push (.read t)) := by
  rw [readInside]
  split <;> rename_i heq <;> rw [h] at heq <;> cases heq
  rfl

/-- Tokens that the open calls take are read. -/
theorem readInside_of_feeds (hreads : c.Reads ts c₁) (hfeeds : calls.Feeds ts calls₁)
    (events : Array Event) :
    c.readInside calls events
      = c₁.readInside calls₁ (events ++ (ts.map Event.read).toArray) := by
  induction hreads generalizing calls events with
  | nil =>
    cases hfeeds
    simp
  | cons hnext _ ih =>
    cases hfeeds with
    | cons hfeed hfeeds =>
      rw [readInside_of_token hnext, hfeed]
      simp [ih hfeeds]

/-- The rest of a call is read behind its opening parenthesis. -/
theorem readInside_of_call {function : String} {arguments : List Expr}
    (plain : (call function arguments).Plain)
    (hreads : c.Reads (.identifier function :: (tokensAll arguments ++ [.closing])) c₁)
    (events : Array Event) :
    c.readInside .start events = ⟨.ok (.call function arguments), c₁,
      events ++ ((Token.identifier function :: (tokensAll arguments ++ [.closing])).map
        Event.read).toArray⟩ := by
  rw [← List.cons_append] at hreads
  obtain ⟨c', hparts, hclosing⟩ := reads_append_iff.1 hreads
  obtain ⟨_, hnext, hnil⟩ := reads_cons_iff.1 hclosing
  cases hnil
  rw [readInside_of_feeds hparts (OpenCalls.feeds_start plain), readInside_of_token hnext,
    OpenCalls.feed?_closing_outermost]
  simp

/-! ### One form -/

/-- An expression is read from its tokens. -/
theorem readItem_of_reads (plain : e.Plain) (h : c.Reads e.tokens c₁) :
    c.readItem = ⟨.ok (some (.expr e)), c₁, (e.tokens.map Event.read).toArray⟩ := by
  cases e with
  | atom a =>
    obtain ⟨_, hnext, hnil⟩ := reads_cons_iff.1 h
    cases hnil
    cases a with
    | integer _ | string _ => simp [readItem, hnext, Atom.token, Expr.tokens]
    | bool b => simp [readItem, hnext, Atom.token, Expr.tokens, Atom.ofName_boolName]
    | var name => simp [readItem, hnext, Atom.token, Expr.tokens, Atom.ofName_of_plain plain]
  | call function arguments =>
    obtain ⟨_, hnext, hreads⟩ := reads_cons_iff.1 h
    simp [readItem, hnext, readInside_of_call plain hreads, Expr.tokens, Except.map]

theorem reads_of_readItem (h : c.readItem.answer = .ok (some (.expr e))) :
    c.Reads e.tokens c.readItem.cursor ∧ e.Plain := by
  have atom {t : Token} {a : Atom} {c₁ : Cursor} (hnext : c.readNext = (.ok (some t), c₁))
      (ht : a.token = t) (ha : (Expr.atom a).Plain) :
      c.Reads (Expr.atom a).tokens c₁ ∧ (Expr.atom a).Plain :=
    ⟨.cons (ht ▸ hnext) .nil, ha⟩
  rw [readItem] at h ⊢
  split at h
  · cases h
  · cases h
  · next token c' hnext =>
    cases token with
    | opening =>
      cases hcall : (c'.readInside .start #[.read .opening]).answer with
      | error _ => simp [hcall, Except.map] at h
      | ok e' =>
        obtain rfl : e' = e := by simpa [hcall, Except.map] using h
        obtain ⟨ts, hreads, htokens, he⟩ := reads_of_readInside OpenCalls.plain_start hcall
        rw [htokens]
        exact ⟨.cons hnext hreads, he⟩
    | closing => cases h
    | integer value =>
      cases h
      exact atom hnext rfl trivial
    | string content =>
      cases h
      exact atom hnext rfl trivial
    | identifier name =>
      cases h
      exact atom hnext (Atom.token_ofName name) (Atom.plain_ofName name)

/-- There is nothing more where there is no further token. -/
theorem end_of_readItem (h : c.readItem.answer = .ok none) :
    ∃ c₁, c.readNext = (.ok none, c₁) ∧ c.readItem.cursor = c₁ := by
  rw [readItem] at h ⊢
  split at h
  · cases h
  · next c₁ hnext => exact ⟨c₁, hnext, rfl⟩
  · next token c₁ hnext =>
    cases token with
    | opening =>
      cases hcall : (c₁.readInside .start #[.read .opening]).answer <;>
        simp [hcall, Except.map] at h
    | closing | integer _ | string _ | identifier _ => cases h

/-- **An error of an item** is one of its first token, or it is met inside the call that this token
opens. -/
theorem error_of_readItem {cause : ParseError} (h : c.readItem.answer = .error cause) :
    (∃ e c₁, c.readNext = (.error e, c₁) ∧ cause = .lex e ∧ c.readItem.cursor = c₁) ∨
      ∃ c₁, c.readNext = (.ok (some .opening), c₁) ∧
        (c₁.readInside .start #[.read .opening]).answer = .error cause ∧
        c.readItem.cursor = (c₁.readInside .start #[.read .opening]).cursor := by
  rw [readItem] at h ⊢
  split at h
  · next e c₁ hnext =>
    cases h
    exact .inl ⟨e, c₁, hnext, rfl, rfl⟩
  · cases h
  · next token c₁ hnext =>
    cases token with
    | opening =>
      refine .inr ⟨c₁, hnext, ?_, rfl⟩
      cases hcall : (c₁.readInside .start #[.read .opening]).answer with
      | ok e => simp [hcall, Except.map] at h
      | error cause' => simpa [hcall, Except.map] using h
    | closing | integer _ | string _ | identifier _ => cases h

/-- **An expression is read as a form from its tokens.** -/
theorem readForm_of_reads (plain : e.Plain) (h : c.Reads e.tokens c₁) :
    c.readForm
      = ⟨.ok (some e), c₁, (e.tokens.map Event.read).toArray.push (.parsed c₁.pos)⟩ := by
  simp [readForm, readItem_of_reads plain h]

/-- **Reading a form pulls the tokens of an expression** and nothing behind them. -/
theorem reads_of_readForm (h : c.readForm.answer = .ok (some e)) :
    c.Reads e.tokens c.readForm.cursor ∧ e.Plain := by
  rw [readForm] at h ⊢
  split at h
  · cases h
  · cases h
  · cases h
  · next hitem =>
    cases h
    exact reads_of_readItem hitem

theorem readForm_of_end (h : c.readNext = (.ok none, c₁)) : c.readForm = ⟨.ok none, c₁, #[]⟩ := by
  simp [readForm, readItem, h]

/-- There is no further form only where there is no further token. -/
theorem end_of_readForm (h : c.readForm.answer = .ok none) : ∃ c₁, c.readNext = (.ok none, c₁) := by
  have hitem : c.readItem.answer = .ok none := by
    rw [readForm] at h
    split at h <;> first | assumption | cases h
  obtain ⟨c₁, hnext, -⟩ := end_of_readItem hitem
  exact ⟨c₁, hnext⟩

/-- An error of a form is one of the item there, unless this is a closing parenthesis. -/
theorem error_of_readForm {cause : ParseError} (h : c.readForm.answer = .error cause) :
    c.readItem.answer = .error cause ∨ cause = .unexpectedClosing c.readItem.cursor.pos := by
  rw [readForm] at h
  split at h
  · next hitem =>
    cases h
    exact .inl hitem
  · cases h
  · cases h
    exact .inr rfl
  · cases h

/-! ### All forms -/

theorem readFormsOnto_eq (c : Cursor) (forms : List Expr) (events : Array Event) :
    c.readFormsOnto forms events = match c.readForm.answer with
      | .error e => ⟨forms.reverse, some e, c.readForm.cursor, events ++ c.readForm.events⟩
      | .ok none => ⟨forms.reverse, none, c.readForm.cursor, events ++ c.readForm.events⟩
      | .ok (some e) =>
        c.readForm.cursor.readFormsOnto (e :: forms) (events ++ c.readForm.events) := by
  rw [readFormsOnto]
  split <;> rename_i heq <;> rw [heq]

/-- Forms whose tokens can be pulled are read one after the other. -/
theorem readFormsOnto_of_reads (plain : ∀ e ∈ es, e.Plain) (h : c.Reads (tokensAll es) c₁)
    (forms : List Expr) (events : Array Event) :
    ∃ events', c.readFormsOnto forms events = c₁.readFormsOnto (es.reverse ++ forms) events' := by
  induction es generalizing c forms events with
  | nil =>
    cases h
    exact ⟨events, rfl⟩
  | cons e es ih =>
    obtain ⟨c', hform, hothers⟩ := reads_append_iff.1 h
    have hread := readForm_of_reads (plain e (by simp)) hform
    rw [readFormsOnto_eq, hread, List.reverse_cons, List.append_assoc]
    exact ih (fun e he => plain e (by simp [he])) hothers _ _

/-- Reading goes on until there is no further form, since every form leaves less to read. -/
theorem exists_forms (c : Cursor) :
    ∃ es c₁, c.Reads (tokensAll es) c₁ ∧ (∀ e ∈ es, e.Plain) ∧
      ∀ e, c₁.readForm.answer ≠ .ok (some e) := by
  by_cases h : ∃ e, c.readForm.answer = .ok (some e)
  · obtain ⟨e, he⟩ := h
    have hless : c.readForm.cursor.unread.length < c.unread.length := length_readForm_lt he
    obtain ⟨hform, plain⟩ := reads_of_readForm he
    obtain ⟨es, c₁, hes, hplain, hend⟩ := exists_forms c.readForm.cursor
    exact ⟨e :: es, c₁, reads_append_iff.2 ⟨_, hform, hes⟩, List.forall_mem_cons.2 ⟨plain, hplain⟩,
      hend⟩
  · exact ⟨[], c, .nil, by simp, fun e he => h ⟨e, he⟩⟩
termination_by c.unread.length

/-- **All forms are read exactly if their tokens are all there is to pull.** -/
theorem result_readForms_eq_ok_iff :
    c.readForms.result = .ok es ↔
      (∃ c₁ c₂, c.Reads (tokensAll es) c₁ ∧ c₁.readNext = (.ok none, c₂)) ∧ ∀ e ∈ es, e.Plain := by
  constructor
  · intro h
    obtain ⟨fs, c₁, hreads, plain, hend⟩ := exists_forms c
    obtain ⟨events, hrun⟩ := readFormsOnto_of_reads plain hreads [] #[]
    rw [readForms, hrun, readFormsOnto_eq] at h
    split at h
    · cases h
    · next hnone =>
      obtain rfl : fs = es := by simpa [FormRun.result] using h
      obtain ⟨c₂, hnext⟩ := end_of_readForm hnone
      exact ⟨⟨c₁, c₂, hreads, hnext⟩, plain⟩
    · next e hform => exact absurd hform (hend e)
  · rintro ⟨⟨c₁, c₂, hreads, hnext⟩, plain⟩
    obtain ⟨events, hrun⟩ := readFormsOnto_of_reads plain hreads [] #[]
    rw [readForms, hrun, readFormsOnto_eq, readForm_of_end hnext]
    simp [FormRun.result]

/-- A text is one form exactly if the tokens of that form are all there is to pull. -/
theorem answer_readOnlyForm_eq_ok_iff :
    c.readOnlyForm.answer = .ok e ↔
      (∃ c₁ c₂, c.Reads e.tokens c₁ ∧ c₁.readNext = (.ok none, c₂)) ∧ e.Plain := by
  constructor
  · intro h
    rw [readOnlyForm] at h
    split at h
    · cases h
    · cases h
    · next e' hform =>
      obtain ⟨hreads, plain⟩ := reads_of_readForm hform
      split at h
      · cases h
      · next c₂ hnext =>
        cases h
        exact ⟨⟨_, c₂, hreads, hnext⟩, plain⟩
      · cases h
  · rintro ⟨⟨c₁, c₂, hreads, hnext⟩, plain⟩
    simp [readOnlyForm, readForm_of_reads plain hreads, hnext]

end Cursor

/-- **A text is a script exactly if its tokens are those of the forms**, none of which uses the name
of a truth value as another name. -/
theorem parseScript_eq_ok_iff {source : String} {es : List Expr} :
    parseScript source = .ok es ↔
      tokenize source = .ok (tokensAll es) ∧ ∀ e ∈ es, e.Plain := by
  rw [parseScript, Cursor.result_readForms_eq_ok_iff, tokenize, Cursor.result_readAll_eq_ok_iff]

end HostedLisp
