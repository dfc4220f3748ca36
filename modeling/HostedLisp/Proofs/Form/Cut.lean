import Mathlib
import HostedLisp.Proofs.Form.Inside
import HostedLisp.Proofs.Form.Run
import HostedLisp.Proofs.Token.Cut

/-!
# Forms of a text that is cut off

Where a text that can be read is cut off, its tokens are cut in two. Either the first part is the
tokens of some of the forms, and then what is left can be read, unless it ends in a string literal.
Or calls are open, and then what is left ends inside the innermost of them. `openHeads` knows the
heads of these calls, since a token that the open calls take changes their heads as `Token.nest`
says.

The token that the text ends in is there in part, and no longer than it was. It may have become
another name, or even the name of a truth value, but none that reading stops at outside of calls.

## Main results

* `openHeads_tokensAll`, `OpenCalls.nest_of_feeds` — the heads of the calls that are open
* `Expr.tokensAll_cut` — the tokens of some forms, cut in two
* `Cursor.readForms_of_append` — the forms and the error of a text that is cut off
* `parseScript_of_append` — whether, how and where reading it fails
-/

namespace HostedLisp

open HostedLisp.Expr

/-! ### The heads of the calls that are open -/

/-- The name that an expression consists of, if it is a name. -/
def Expr.name? : Expr → Option String
  | .atom (.var name) => some name
  | _ => none

theorem Atom.ofName_eq_var {name name' : String} (h : Atom.ofName name = .var name') :
    name' = name := by
  have htoken := Atom.token_ofName name
  rw [h] at htoken
  cases htoken
  rfl

/-- The first part of a call becomes its head, and no other part changes the head. -/
theorem OpenCall.head?_of_add? {call call' : OpenCall} {e : Expr} (h : call.add? e = some call') :
    call'.head? = call.head?.or e.name? ∧ call'.head?.isSome := by
  obtain ⟨head?, arguments⟩ := call
  cases head? with
  | some head =>
    cases h
    exact ⟨rfl, rfl⟩
  | none =>
    rcases e with (_ | _ | _ | name) | _
    case atom.var =>
      cases h
      exact ⟨rfl, rfl⟩
    all_goals cases h

namespace OpenCalls

variable {calls calls₁ : OpenCalls} {t : Token} {ts : List Token}

/-- The heads of the open calls, the innermost call first. -/
def heads (calls : OpenCalls) : List (Option String) :=
  calls.innermost.head? :: calls.outer.map OpenCall.head?

theorem heads_of_add? {e : Expr} (h : calls.add? e = some calls₁) :
    calls₁.heads = calls.innermost.head?.or e.name? :: calls.outer.map OpenCall.head? ∧
      (calls.innermost.head?.or e.name?).isSome := by
  obtain ⟨innermost, hadd, rfl⟩ := Option.map_eq_some_iff.1 h
  obtain ⟨hhead, hsome⟩ := OpenCall.head?_of_add? hadd
  rw [heads, hhead]
  exact ⟨rfl, hhead ▸ hsome⟩

/-- **A token that is taken changes the heads of the open calls** in the way that is seen without
reading any call. -/
theorem nest_of_feed? (h : calls.feed? t = some (.reading calls₁)) :
    t.nest calls.heads = calls₁.heads := by
  cases t with
  | opening =>
    cases h
    rfl
  | closing =>
    obtain ⟨innermost, outer⟩ := calls
    obtain ⟨e, hclose, h⟩ := Option.bind_eq_some_iff.1 h
    obtain ⟨head, -, rfl⟩ := Option.map_eq_some_iff.1 hclose
    cases outer with
    | nil => cases h
    | cons call outer =>
      -- The call that is closed is no name, so it leaves the head of the next one.
      obtain ⟨call', hadd, hsame⟩ := Option.map_eq_some_iff.1 h
      cases hsame
      have hhead : call'.head? = call.head? := by
        simpa [Expr.name?] using (OpenCall.head?_of_add? hadd).1
      simp [heads, Token.nest, hhead]
  | integer _ | string _ =>
    obtain ⟨calls', hadd, hsame⟩ := Option.map_eq_some_iff.1 h
    cases hsame
    rw [(heads_of_add? hadd).1, Expr.name?, Option.or_none]
    · rfl
    · simp
  | identifier name =>
    obtain ⟨calls', hadd, hsame⟩ := Option.map_eq_some_iff.1 h
    cases hsame
    obtain ⟨hheads, hsome⟩ := heads_of_add? hadd
    rw [hheads, heads]
    cases hhead : calls.innermost.head? with
    | some head => rfl
    | none =>
      rw [hhead, Option.none_or] at hsome
      cases hatom : Atom.ofName name with
      | var name' =>
        obtain rfl := Atom.ofName_eq_var hatom
        rfl
      | integer _ | string _ | bool _ =>
        rw [hatom] at hsome
        cases hsome

theorem nest_of_feeds (h : calls.Feeds ts calls₁) :
    ts.foldl Token.nest calls.heads = calls₁.heads := by
  induction h with
  | nil => rfl
  | cons first _ ih => rw [List.foldl_cons, nest_of_feed? first, ih]

end OpenCalls

theorem openHeads_append {ts us : List Token} (h : openHeads ts = []) :
    openHeads (ts ++ us) = openHeads us := by
  rw [openHeads] at h
  rw [openHeads, List.foldl_append, h, openHeads]

/-- Behind a whole form no call is open. -/
theorem openHeads_tokens {e : Expr} (plain : e.Plain) : openHeads e.tokens = [] := by
  cases e with
  | atom a => cases a <;> rfl
  | call function arguments =>
    have hnest := OpenCalls.nest_of_feeds (OpenCalls.feeds_start plain)
    rw [Expr.tokens, openHeads, List.foldl_cons, ← List.cons_append, List.foldl_append]
    exact congrArg (Token.nest · .closing) hnest

theorem openHeads_tokensAll {es : List Expr} (plain : ∀ e ∈ es, e.Plain) :
    openHeads (tokensAll es) = [] := by
  induction es with
  | nil => rfl
  | cons e es ih =>
    rw [tokensAll, openHeads_append (openHeads_tokens (plain e (by simp)))]
    exact ih fun e he => plain e (by simp [he])

/-! ### The tokens of some forms, cut in two -/

/-- Where the tokens of a call are cut in two, the first part leaves calls open that take the next
token. -/
theorem Expr.tokens_call_cut {function : String} {arguments : List Expr} {ts us : List Token}
    (plain : (call function arguments).Plain)
    (h : .identifier function :: (tokensAll arguments ++ [.closing]) = ts ++ us) (hus : us ≠ []) :
    ∃ calls t vs progress, OpenCalls.start.Feeds ts calls ∧ us = t :: vs ∧
      calls.feed? t = some progress := by
  obtain ⟨us, last, rfl⟩ := (List.eq_nil_or_concat us).resolve_left hus
  rw [List.concat_eq_append, ← List.cons_append, ← List.append_assoc] at h
  obtain ⟨hinside, hlast⟩ := List.append_inj' h rfl
  cases hlast
  have hfeeds := OpenCalls.feeds_start plain
  rw [hinside] at hfeeds
  obtain ⟨calls, hts, hothers⟩ := OpenCalls.feeds_append_iff.1 hfeeds
  cases hothers with
  | nil => exact ⟨_, .closing, [], _, hts, rfl, OpenCalls.feed?_closing_outermost ..⟩
  | cons first _ => exact ⟨calls, _, _, _, hts, rfl, first⟩

/-- **Where the tokens of some forms are cut in two**, the first part is the tokens of the first
forms, or there are calls open behind these that take the next token. -/
theorem Expr.tokensAll_cut {es : List Expr} {ts us : List Token} (plain : ∀ e ∈ es, e.Plain)
    (h : tokensAll es = ts ++ us) :
    ∃ done rest, es = done ++ rest ∧ (ts = tokensAll done ∨
      ∃ inside calls t vs progress, ts = tokensAll done ++ .opening :: inside ∧
        OpenCalls.start.Feeds inside calls ∧ us = t :: vs ∧ calls.feed? t = some progress) := by
  induction es generalizing ts with
  | nil =>
    obtain ⟨rfl, -⟩ := List.append_eq_nil_iff.1 h.symm
    exact ⟨[], [], rfl, .inl rfl⟩
  | cons e es ih =>
    rcases List.append_eq_append_iff.1 h with ⟨ts', rfl, hothers⟩ | ⟨missing, hcut, rfl⟩
    · -- The cut is behind the first form.
      obtain ⟨done, rest, rfl, hdone⟩ := ih (fun e he => plain e (by simp [he])) hothers
      refine ⟨e :: done, rest, rfl, ?_⟩
      rcases hdone with rfl | ⟨inside, calls, t, vs, progress, rfl, hfeeds, rfl, hfeed⟩
      · exact .inl rfl
      · refine .inr ⟨inside, calls, t, vs, progress, ?_, hfeeds, rfl, hfeed⟩
        rw [tokensAll, List.append_assoc]
    · by_cases hmissing : missing = []
      · subst hmissing
        rw [List.append_nil] at hcut
        exact ⟨[e], es, rfl, .inl (by simp [tokensAll, hcut])⟩
      · cases ts with
        | nil => exact ⟨[], e :: es, rfl, .inl rfl⟩
        | cons first inside =>
          -- The form has two tokens at least, so it is a call.
          cases e with
          | atom a =>
            exact absurd (List.append_eq_nil_iff.1 (List.cons.inj hcut).2.symm).2 hmissing
          | call function arguments =>
            obtain ⟨rfl, hrest⟩ := List.cons.inj hcut
            obtain ⟨calls, t, vs, progress, hfeeds, rfl, hfeed⟩ :=
              Expr.tokens_call_cut (plain _ List.mem_cons_self) hrest hmissing
            exact ⟨[], _, rfl, .inr ⟨inside, calls, t, _, progress, rfl, hfeeds, rfl, hfeed⟩⟩

/-! ### Where a text is cut off -/

theorem Place.error?_eq_none_iff {stop : Position} {place : Place} :
    place.error? stop = none ↔ place = .outside := by
  match place with
  | .outside => simp [error?]
  | .inString _ | .inCall none => simp [error?]
  | .inCall (some head) =>
    rw [error?]
    split <;> simp

theorem Place.of_error? {stop : Position} {place : Place} {e : ParseError}
    (h : place.error? stop = some e) :
    (∃ start, e = .lex (.unterminatedString start)) ∨
      (∃ head, e = .unexpectedEnd head stop) ∨ e = .callTarget stop := by
  match place with
  | .outside => cases h
  | .inString start =>
    cases h
    exact .inl ⟨start, rfl⟩
  | .inCall none =>
    cases h
    exact .inr (.inr rfl)
  | .inCall (some head) =>
    rw [error?] at h
    split at h
    · cases h
      exact .inr (.inr rfl)
    · cases h
      exact .inr (.inl ⟨head, rfl⟩)

/-- A text that ends between two parts of a call fails as reading the call says. -/
theorem Place.error?_inCall {call : OpenCall} (plain : call.Plain) (stop : Position) :
    (Place.inCall call.head?).error? stop = some (call.unexpectedEnd stop) := by
  rw [OpenCall.unexpectedEnd]
  cases hhead : call.head? with
  | none => rfl
  | some head =>
    obtain ⟨htrue, hfalse⟩ := plain.head head hhead
    rw [error?, if_neg (by simp [htrue, hfalse])]

/-- A text that ends in what may have become the head of a call fails as reading this much of the
head says. -/
theorem Place.error?_inCall_or {call : OpenCall} (plain : call.Plain) (name : String)
    (stop : Position) :
    (Place.inCall (call.head?.or (some name))).error? stop
      = some (match call.add? (.atom (.ofName name)) with
        | none => .callTarget stop
        | some call => call.unexpectedEnd stop) := by
  obtain ⟨head?, arguments⟩ := call
  cases head? with
  | some head => exact Place.error?_inCall plain stop
  | none =>
    rw [Option.none_or, error?, Atom.ofName]
    by_cases htrue : name = "true"
    · rw [if_pos (.inl htrue), if_pos htrue]
      rfl
    · by_cases hfalse : name = "false"
      · rw [if_pos (.inr hfalse), if_neg htrue, if_pos hfalse]
        rfl
      · rw [if_neg (not_or.2 ⟨htrue, hfalse⟩), if_neg htrue, if_neg hfalse]
        rfl

namespace Cursor

variable {c c₁ c₂ : Cursor} {t : Token} {n : Nat} {heads : List (Option String)}
  {calls : OpenCalls} {more : List Char}

theorem placeBehind_of_not_begun (h : c.begun n = []) :
    c.placeBehind n heads = .among heads [] := by
  rw [placeBehind]
  split <;> simp [h]

theorem placeBehind_of_string {content : String}
    (h : c.readNext = (.ok (some (.string content)), c₁)) (hbegun : c.begun n ≠ []) :
    c.placeBehind n heads = .inString c.skipGap.pos := by
  rw [placeBehind, h]
  exact if_neg hbegun

theorem placeBehind_of_no_string (h : ∀ content, c.readNext.1 ≠ .ok (some (.string content))) :
    c.placeBehind n heads = .among heads (c.begun n) := by
  rw [placeBehind]
  split
  · next content hnext => exact absurd hnext (h content)
  · rfl

/-! ### Outside of calls -/

/-- An atom that the text ends with is the last form. -/
theorem error?_readForms_of_last_atom {a : Atom} (plain : (Expr.atom a).Plain)
    (h : c.readNext = (.ok (some a.token), c.ending)) : c.readForms.error? = none := by
  have hform := readForm_of_reads plain (.cons h .nil : c.Reads (Expr.atom a).tokens c.ending)
  rw [readForms_of_form (by rw [hform]), hform]
  rw [readForms_of_end (by rw [readForm_of_end c.readNext_ending])]

theorem readForms_of_item_error {e : ParseError} (h : c.readItem.answer = .error e) :
    c.readForms.error? = some e ∧ c.readForms.forms = [] := by
  have hform : c.readForm.answer = .error e := by rw [readForm, h]
  rw [readForms_of_error hform]
  exact ⟨rfl, rfl⟩

/-- **Where no call is open**, a text that is cut off can be read, unless a string literal has
begun, which is then the error. -/
theorem readForms_of_cut_outside (hnext : (c.append more).readNext = (.ok (some t), c₂))
    (hlt : c.ending.offset < c₂.offset) :
    let place := (c.append more).placeBehind c.ending.offset []
    c.readForms.error? = place.error? c.ending.pos ∧
      (place ≠ .outside → c.readForms.forms = []) := by
  rcases readNext_cut hnext hlt with ⟨hbegun, hend⟩ | ⟨hbegun, answer, hlast, hremnant⟩
  · rw [placeBehind_of_not_begun hbegun, readForms_of_end (by rw [readForm_of_end hend])]
    exact ⟨rfl, fun _ => rfl⟩
  · cases t with
    | integer _ =>
      obtain ⟨value, rfl⟩ := hremnant
      have hnone : c.readForms.error? = none :=
        error?_readForms_of_last_atom (a := .integer value) trivial hlast
      rw [placeBehind_of_no_string (by simp [hnext])]
      exact ⟨hnone, fun h => absurd rfl h⟩
    | identifier _ =>
      cases hremnant
      rw [← Atom.token_ofName] at hlast
      rw [placeBehind_of_no_string (by simp [hnext])]
      exact ⟨error?_readForms_of_last_atom (Atom.plain_ofName _) hlast, fun h => absurd rfl h⟩
    | string _ =>
      cases hremnant
      obtain ⟨herror, hforms⟩ := readForms_of_item_error (c := c) (by rw [readItem, hlast])
      rw [placeBehind_of_string hnext hbegun]
      exact ⟨herror, fun _ => hforms⟩
    | opening | closing => exact hremnant.elim

/-! ### Inside of a call -/

/-- The error of a call that the text ends in with an atom. -/
theorem readInside_of_last_atom {a : Atom}
    (hfeed : calls.feed? t = (calls.add? (.atom a)).map .reading)
    (h : c.readNext = (.ok (some t), c.ending)) (events : Array Event) :
    (c.readInside calls events).answer = .error (match calls.innermost.add? (.atom a) with
      | none => .callTarget c.ending.pos
      | some innermost => innermost.unexpectedEnd c.ending.pos) := by
  rw [readInside_of_token h, hfeed, OpenCalls.add?]
  cases calls.innermost.add? (.atom a) with
  | none => rfl
  | some innermost =>
    dsimp only [Option.map_some]
    rw [readInside_of_end c.readNext_ending]

/-- **Where calls are open**, a text that is cut off ends inside the innermost of them. -/
theorem readInside_of_cut (plain : calls.Plain) {progress : Progress}
    (hfeed : calls.feed? t = some progress)
    (hnext : (c.append more).readNext = (.ok (some t), c₂))
    (hlt : c.ending.offset < c₂.offset) (events : Array Event) :
    ∃ e, (c.readInside calls events).answer = .error e ∧
      ((c.append more).placeBehind c.ending.offset calls.heads).error? c.ending.pos = some e := by
  rcases readNext_cut hnext hlt with ⟨hbegun, hend⟩ | ⟨hbegun, answer, hlast, hremnant⟩
  · rw [placeBehind_of_not_begun hbegun, readInside_of_end hend]
    refine ⟨_, rfl, ?_⟩
    rw [OpenCalls.heads, Place.among, if_pos rfl, Option.or_none]
    exact Place.error?_inCall plain.1 _
  · cases t with
    | integer _ =>
      obtain ⟨value, rfl⟩ := hremnant
      -- An integer is taken behind a head only, so there is one.
      obtain ⟨calls', hadd, -⟩ := Option.map_eq_some_iff.1 hfeed
      obtain ⟨head, hhead⟩ : ∃ head, calls.innermost.head? = some head := by
        simpa [Expr.name?, Option.isSome_iff_exists] using (OpenCalls.heads_of_add? hadd).2
      rw [placeBehind_of_no_string (by simp [hnext]), readInside_of_last_atom rfl hlast]
      refine ⟨_, rfl, ?_⟩
      rw [OpenCalls.heads, Place.among, hhead, Option.some_or, ← hhead, Place.error?_inCall plain.1]
      simp [OpenCall.add?, OpenCall.unexpectedEnd, hhead]
    | identifier _ =>
      cases hremnant
      rw [placeBehind_of_no_string (by simp [hnext]), readInside_of_last_atom rfl hlast]
      refine ⟨_, rfl, ?_⟩
      rw [OpenCalls.heads, Place.among, if_neg hbegun]
      exact Place.error?_inCall_or plain.1 _ _
    | string _ =>
      cases hremnant
      rw [placeBehind_of_string hnext hbegun, readInside_of_error hlast]
      exact ⟨_, rfl, rfl⟩
    | opening | closing => exact hremnant.elim

/-- An error that reading meets inside open calls is met from the opening parenthesis of the
outermost call, too. -/
theorem readForms_of_open {inside : List Token} {d : Cursor} {e : ParseError}
    (hopening : c.readNext = (.ok (some .opening), c₁)) (hinside : c₁.Reads inside d)
    (hfeeds : OpenCalls.start.Feeds inside calls)
    (herror : (d.readInside calls #[]).answer = .error e) :
    c.readForms.error? = some e ∧ c.readForms.forms = [] := by
  have hitem : c.readItem.answer = .error e := by
    rw [readItem, hopening]
    dsimp only
    rw [readInside_of_feeds hinside hfeeds]
    have hreached := congrArg Prod.fst (reached_readInside calls
      (#[.read .opening] ++ (inside.map Event.read).toArray) d)
    dsimp only [Reading.reached] at hreached
    rw [hreached, herror]
    rfl
  exact readForms_of_item_error hitem

/-- The same, seen from the opening parenthesis of the outermost call. -/
theorem readForms_of_cut_inside {inside : List Token} {progress : Progress} {d : Cursor}
    (hopening : c.readNext = (.ok (some .opening), c₁)) (hinside : c₁.Reads inside d)
    (hfeeds : OpenCalls.start.Feeds inside calls) (hfeed : calls.feed? t = some progress)
    (hnext : (d.append more).readNext = (.ok (some t), c₂)) (hlt : d.ending.offset < c₂.offset) :
    ∃ e, c.readForms.error? = some e ∧ c.readForms.forms = [] ∧
      ((d.append more).placeBehind d.ending.offset calls.heads).error? d.ending.pos = some e := by
  obtain ⟨e, herror, hplace⟩ := readInside_of_cut (hfeeds.plain OpenCalls.plain_start) hfeed hnext
    hlt #[]
  obtain ⟨hsame, hnone⟩ := readForms_of_open hopening hinside hfeeds herror
  exact ⟨e, hsame, hnone, hplace⟩

/-! ### Anywhere -/

/-- **A text that can be read, cut off at any place**: the forms that are left are read, and then
the error that belongs to the place. -/
theorem readForms_of_append {es : List Expr} (h : (c.append more).readForms.result = .ok es) :
    let place := (c.append more).placeAt c.ending.offset
    c.readForms.error? = place.error? c.ending.pos ∧
      (place ≠ .outside → c.readForms.forms <+: es) := by
  obtain ⟨⟨last, afterLast, hall, hend⟩, plain⟩ := result_readForms_eq_ok_iff.1 h
  obtain ⟨ts, d, hwithin, hreads, hreads', hlt⟩ := reads_tokensWithin more c
  obtain ⟨us, hcut, hothers⟩ := exists_reads_of_reads hreads' hall hend
  have hending : d.ending = c.ending := ending_of_leads (leads_of_reads hreads)
  rw [placeAt, hwithin, ← hending]
  dsimp only
  obtain ⟨done, rest, rfl, hdone⟩ := Expr.tokensAll_cut plain hcut
  have hplain : ∀ e ∈ done, e.Plain := fun e he => plain e (List.mem_append_left _ he)
  rcases hdone with rfl | ⟨inside, calls, t, vs, progress, rfl, hfeeds, rfl, hfeed⟩
  · -- The tokens before the cut are those of whole forms.
    obtain ⟨hforms, herror⟩ := readForms_of_reads hplain hreads
    rw [openHeads_tokensAll hplain, hforms, herror]
    cases us with
    | nil =>
      rw [reads_nil_iff] at hothers
      subst hothers
      rw [placeBehind_of_no_string (by simp [hend]),
        readForms_of_end (by rw [readForm_of_end (readNext_of_append_end hend)])]
      exact ⟨rfl, fun h => absurd rfl h⟩
    | cons t vs =>
      obtain ⟨c₂, hnext, -⟩ := reads_cons_iff.1 hothers
      obtain ⟨hsame, hnone⟩ := readForms_of_cut_outside hnext (hlt t c₂ hnext)
      refine ⟨hsame, fun hplace => ⟨rest, ?_⟩⟩
      rw [hnone hplace, List.append_nil]
  · -- Calls are open behind the whole forms.
    obtain ⟨c', hwhole, hcall⟩ := reads_append_iff.1 hreads
    obtain ⟨c'', hopening, hinside⟩ := reads_cons_iff.1 hcall
    obtain ⟨c₂, hnext, -⟩ := reads_cons_iff.1 hothers
    obtain ⟨e, hsame, hnone, hplace⟩ :=
      readForms_of_cut_inside hopening hinside hfeeds hfeed hnext (hlt t c₂ hnext)
    have hheads : openHeads (tokensAll done ++ .opening :: inside) = calls.heads := by
      rw [openHeads_append (openHeads_tokensAll hplain)]
      exact OpenCalls.nest_of_feeds hfeeds
    obtain ⟨hforms, herror⟩ := readForms_of_reads hplain hwhole
    rw [hheads, hplace, herror, hsame, hforms, hnone, List.append_nil]
    exact ⟨rfl, fun _ => ⟨rest, rfl⟩⟩

end Cursor

/-- **Truncation.** A text that can be read is cut off at any place. Reading what is left fails
exactly if the place lies in a string literal or in a call, and then with the error that belongs to
the place. The forms read before the error are the first forms of the whole text. Nothing else can
go wrong: the error is a string literal without an end, or it stands at the end of what is left and
says in which call that is. -/
theorem parseScript_of_append {p q : String} {es : List Expr} (h : parseScript (p ++ q) = .ok es) :
    let place := (Cursor.ofString (p ++ q)).placeAt p.length
    let stop := Position.origin.after p.toList
    ((∃ e, parseScript p = .error e) ↔ place ≠ .outside) ∧
      (∀ e, parseScript p = .error e ↔ place.error? stop = some e) ∧
      (place ≠ .outside → (Cursor.ofString p).readForms.forms <+: es) ∧
      ∀ e, parseScript p = .error e →
        (∃ start, e = .lex (.unterminatedString start)) ∨
          (∃ head, e = .unexpectedEnd head stop) ∨ e = .callTarget stop := by
  have happend : Cursor.ofString (p ++ q) = (Cursor.ofString p).append q.toList :=
    Cursor.ofString_append p q
  have hlength : p.length = (Cursor.ofString p).ending.offset := by
    rw [Cursor.offset_ending]
    simp [Cursor.ofString, Cursor.ofList, String.length_toList]
  rw [parseScript, happend] at h
  rw [happend, hlength]
  obtain ⟨herror, hforms⟩ := Cursor.readForms_of_append h
  have hiff : ∀ e, parseScript p = .error e ↔
      (((Cursor.ofString p).append q.toList).placeAt (Cursor.ofString p).ending.offset).error?
        (Position.origin.after p.toList) = some e := by
    intro e
    rw [parseScript, FormRun.result_eq_error_iff, herror]
    rfl
  refine ⟨?_, hiff, hforms, fun e he => Place.of_error? ((hiff e).1 he)⟩
  simp only [hiff, ← Option.isSome_iff_exists, ← Option.ne_none_iff_isSome, ne_eq,
    Place.error?_eq_none_iff]

/-- A head that is cut can have the name of a truth value, which is no head. -/
theorem parseScript_cut_head :
    parseScript ("1 (f (true" ++ "x \"a\"))")
        = .ok [.atom (.integer 1), .call "f" [.call "truex" [.atom (.string "a")]]] ∧
      parseScript "1 (f (true" = .error (.callTarget ⟨0, 10⟩) ∧
      (Cursor.ofString "1 (f (true").readForms.forms
        <+: [.atom (.integer 1), .call "f" [.call "truex" [.atom (.string "a")]]] := by
  have hwhole : parseScript ("1 (f (true" ++ "x \"a\"))")
      = .ok [.atom (.integer 1), .call "f" [.call "truex" [.atom (.string "a")]]] :=
    Cursor.result_readForms_eq_ok_iff.2
      ⟨⟨_, _, .cons (by cbv) (.cons (by cbv) (.cons (by cbv) (.cons (by cbv) (.cons (by cbv)
        (.cons (by cbv) (.cons (by cbv) (.cons (by cbv) .nil))))))), by cbv⟩,
        by simp [Expr.Plain, Expr.EveryAll, Expr.Every, Expr.PlainName]⟩
  have hplace : (Cursor.ofString ("1 (f (true" ++ "x \"a\"))")).placeAt "1 (f (true".length
      = .inCall (some "true") := by cbv
  obtain ⟨-, herror, hforms, -⟩ := parseScript_of_append hwhole
  rw [hplace] at herror hforms
  exact ⟨hwhole, (herror _).2 (by cbv), hforms (by simp)⟩

/-- In a comment neither quotes nor parentheses count. -/
example : (Cursor.ofString "(f ; \" (\n 1)").placeAt 8 = .inCall (some "f") := by cbv

end HostedLisp
