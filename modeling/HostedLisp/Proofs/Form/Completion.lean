import Mathlib
import HostedLisp.Proofs.Form.Cut
import HostedLisp.Proofs.Form.RoundTrip
import HostedLisp.Proofs.Token.Seam

/-!
# Calls that can be completed

A text that ends inside a call may be the beginning of one that can be read. It is, unless an open
call stands in the place of the head of the call around it. Then no further text helps: to get a
head the outer call would have to close the inner one, and a call is no head.

What reading knows of this is in the open calls. A call without a head that is not the innermost one
stays among the calls that are open, whatever tokens are fed, so the outermost call is never closed.
Where there is no such call, a closing parenthesis for each open one completes them all.

A longer text need not begin with the tokens of the shorter one, whose last token may go on. But no
parenthesis goes on, and no other token changes which calls are open.

## Main definitions

* `OpenCalls.Blocked` — an open call stands in the place of a head
* `Cursor.EndsInside` — a text ends inside some open calls

## Main results

* `OpenCalls.blocked_of_feed?`, `Cursor.readInside_of_blocked` — no token helps, so no text does
* `OpenCalls.exists_call_of_not_blocked` — the call that the closing parentheses complete
* `completion_of_unexpectedEnd` — when a text that ends inside a call can be completed
-/

namespace HostedLisp

open HostedLisp.Expr

namespace OpenCalls

variable {calls calls₁ : OpenCalls} {t : Token} {ts : List Token} {progress : Progress}

/-! ### Calls in the place of heads -/

/-- One of the open calls stands in the place of the head of the call around it, which has no head
yet. -/
def Blocked (calls : OpenCalls) : Prop := ∃ call ∈ calls.outer, call.head? = none

theorem blocked_iff : calls.Blocked ↔ none ∈ calls.outer.map OpenCall.head? := by
  simp [Blocked]

/-- A token that is no parenthesis goes to the innermost call. -/
theorem outer_of_feed? (ht : t.isParenthesis = false) (h : calls.feed? t = some progress) :
    ∃ calls₁, progress = .reading calls₁ ∧ calls₁.outer = calls.outer := by
  have atom {a : Atom} (h : (calls.add? (.atom a)).map .reading = some progress) :
      ∃ calls₁, progress = .reading calls₁ ∧ calls₁.outer = calls.outer := by
    obtain ⟨calls₁, hadd, rfl⟩ := Option.map_eq_some_iff.1 h
    obtain ⟨innermost, -, rfl⟩ := Option.map_eq_some_iff.1 hadd
    exact ⟨_, rfl, rfl⟩
  cases t with
  | opening | closing => cases ht
  | integer _ | string _ | identifier _ => exact atom h

/-- **No token helps**: the call without a head cannot be the next one to be closed into, since what
is closed is a call. -/
theorem blocked_of_feed? (blocked : calls.Blocked) (h : calls.feed? t = some progress) :
    ∃ calls₁, progress = .reading calls₁ ∧ calls₁.Blocked := by
  obtain ⟨headless, hmem, hnone⟩ := blocked
  cases t with
  | opening =>
    cases h
    exact ⟨_, rfl, headless, List.mem_cons_of_mem _ hmem, hnone⟩
  | closing =>
    obtain ⟨innermost, outer⟩ := calls
    obtain ⟨e, hclose, h⟩ := Option.bind_eq_some_iff.1 h
    obtain ⟨head, -, rfl⟩ := Option.map_eq_some_iff.1 hclose
    cases outer with
    | nil => cases hmem
    | cons call outer =>
      obtain ⟨call', hadd, rfl⟩ := Option.map_eq_some_iff.1 h
      obtain ⟨hhead, hsome⟩ := OpenCall.head?_of_add? hadd
      rcases List.mem_cons.1 hmem with rfl | hmem
      · rw [hhead, hnone] at hsome
        cases hsome
      · exact ⟨_, rfl, headless, hmem, hnone⟩
  | integer _ | string _ | identifier _ =>
    obtain ⟨calls₁, rfl, houter⟩ := outer_of_feed? rfl h
    exact ⟨calls₁, rfl, headless, houter ▸ hmem, hnone⟩

/-- Without their last token, which is no parenthesis, the calls are blocked as well. -/
theorem exists_blocked_of_cut {inside common last : List Token} (hfeeds : start.Feeds inside calls)
    (blocked : calls.Blocked) (hcut : ts ++ .opening :: inside = common ++ last)
    (hlast : last = [] ∨ ∃ t : Token, t.isParenthesis = false ∧ last = [t]) :
    ∃ before calls', common = ts ++ .opening :: before ∧ start.Feeds before calls' ∧
      calls'.Blocked := by
  rcases hlast with rfl | ⟨t, ht, rfl⟩
  · rw [List.append_nil] at hcut
    exact ⟨inside, calls, hcut.symm, hfeeds, blocked⟩
  · rcases List.eq_nil_or_concat inside with rfl | ⟨before, t', rfl⟩
    · -- The last token is the opening parenthesis.
      obtain ⟨-, hsame⟩ := List.append_inj' hcut rfl
      cases hsame
      cases ht
    · rw [List.concat_eq_append] at hcut hfeeds
      rw [← List.cons_append, ← List.append_assoc] at hcut
      obtain ⟨rfl, hsame⟩ := List.append_inj' hcut rfl
      cases hsame
      obtain ⟨calls', hbefore, hlast⟩ := feeds_append_iff.1 hfeeds
      cases hlast with
      | cons hfeed hnil =>
        cases hnil
        obtain ⟨calls₁, hreading, houter⟩ := outer_of_feed? ht hfeed
        cases hreading
        exact ⟨before, calls', rfl, hbefore, by rwa [Blocked, ← houter]⟩

/-! ### Closing all calls -/

/-- **A closing parenthesis for each open call** completes the outermost one, if they all have
heads. The induction is on the calls around the innermost one. -/
theorem exists_call_of_not_blocked {head : String} (plain : calls.Plain)
    (hhead : calls.innermost.head? = some head) (hfree : ¬calls.Blocked) :
    ∃ function arguments, (call function arguments).Plain ∧
      (call function arguments).tokens
        = calls.tokens ++ List.replicate calls.heads.length .closing := by
  obtain ⟨⟨head?, arguments⟩, outer⟩ := calls
  obtain rfl : head? = some head := hhead
  induction outer generalizing head arguments with
  | nil =>
    obtain ⟨hplain, htokens⟩ := tokens_of_feed? (feed?_closing_outermost head arguments) plain
    exact ⟨_, _, hplain, htokens⟩
  | cons next outer ih =>
    obtain ⟨_ | next, before⟩ := next
    · exact absurd ⟨_, List.mem_cons_self, rfl⟩ hfree
    · have hclose : feed? ⟨⟨some head, arguments⟩, ⟨some next, before⟩ :: outer⟩ .closing
          = some (.reading ⟨⟨some next, .call head arguments.reverse :: before⟩, outer⟩) := rfl
      obtain ⟨hplain, htokens⟩ := tokens_of_feed?_reading hclose plain
      have hfree' : ¬Blocked ⟨⟨some next, .call head arguments.reverse :: before⟩, outer⟩ :=
        fun ⟨headless, hmem, hnone⟩ => hfree ⟨headless, List.mem_cons_of_mem _ hmem, hnone⟩
      obtain ⟨function, all, hcall, hall⟩ := ih _ hplain hfree'
      refine ⟨function, all, hcall, ?_⟩
      rw [hall, htokens, List.append_assoc]
      rfl

end OpenCalls

theorem written_closings (n : Nat) :
    Written (List.replicate n .closing) (List.replicate n ')') := by
  induction n with
  | zero => exact .nil .nil
  | succ n ih => exact written_of_lexeme .closing (fun _ _ => rfl) ih

namespace Cursor

variable {c c₁ : Cursor} {calls : OpenCalls} {done : List Expr} {inside : List Token}
  {head : String} {pos : Position}

/-- **No text helps** where a call stands in the place of a head. -/
theorem readInside_of_blocked (blocked : calls.Blocked) (events : Array Event) (c : Cursor) :
    ∃ e, (c.readInside calls events).answer = .error e := by
  fun_induction readInside calls events c with
  | case1 | case2 | case3 => exact ⟨_, rfl⟩
  | case4 calls events c token c' hnext e hfeed =>
    obtain ⟨calls₁, hreading, -⟩ := OpenCalls.blocked_of_feed? blocked hfeed
    cases hreading
  | case5 calls events c token c' hnext calls₁ hfeed ih =>
    obtain ⟨calls₂, hreading, hblocked⟩ := OpenCalls.blocked_of_feed? blocked hfeed
    cases hreading
    exact ih hblocked

/-! ### Where a text ends -/

/-- The text ends inside `calls`, which have taken the tokens `inside` behind the opening
parenthesis of the outermost one. Before it come the forms `done`. -/
structure EndsInside (c : Cursor) (done : List Expr) (inside : List Token) (calls : OpenCalls) :
    Prop where
  /-- The forms are such as are read. -/
  plain : ∀ e ∈ done, e.Plain
  /-- There are no other tokens. -/
  tokens : c.readAll.result = .ok (tokensAll done ++ .opening :: inside)
  /-- The open calls have taken the last ones. -/
  feeds : OpenCalls.start.Feeds inside calls

theorem feeds_of_unexpectedEnd {events : Array Event}
    (h : (c.readInside calls events).answer = .error (.unexpectedEnd head pos)) :
    ∃ inside c₁ c₂ calls₁, c.Reads inside c₁ ∧ c₁.readNext = (.ok none, c₂) ∧
      calls.Feeds inside calls₁ ∧ calls₁.innermost.head? = some head := by
  fun_induction readInside calls events c with
  | case1 | case3 | case4 => cases h
  | case2 calls events c c' hnext =>
    refine ⟨[], c, c', calls, .nil, hnext, .nil, ?_⟩
    rw [OpenCall.unexpectedEnd] at h
    split at h
    · next hhead =>
      cases h
      exact hhead
    · cases h
  | case5 calls events c token c' hnext calls' hfeed ih =>
    obtain ⟨inside, c₁, c₂, calls₁, hreads, hend, hfeeds, hhead⟩ := ih h
    exact ⟨token :: inside, c₁, c₂, calls₁, .cons hnext hreads, hend, .cons hfeed hfeeds, hhead⟩

/-- The first token of a form that the text ends in is an opening parenthesis. -/
theorem open_of_unexpectedEnd (h : c.readForm.answer = .error (.unexpectedEnd head pos)) :
    ∃ c₁, c.readNext = (.ok (some .opening), c₁) ∧
      (c₁.readInside .start #[.read .opening]).answer = .error (.unexpectedEnd head pos) := by
  have hitem := (error_of_readForm h).resolve_right (by simp)
  rcases error_of_readItem hitem with ⟨e, c₁, -, he, -⟩ | ⟨c₁, hopening, hinside, -⟩
  · cases he
  · exact ⟨c₁, hopening, hinside⟩

/-- **A text that ends inside a call** has the tokens of the forms before it and those that the open
calls have taken. -/
theorem exists_endsInside (h : c.readForms.error? = some (.unexpectedEnd head pos)) :
    ∃ inside calls, c.EndsInside c.readForms.forms inside calls ∧
      calls.innermost.head? = some head := by
  obtain ⟨done, c₁, hdone, plain, hlast⟩ := exists_forms c
  obtain ⟨hforms, herror⟩ := readForms_of_reads plain hdone
  rw [herror] at h
  match hform : c₁.readForm.answer with
  | .ok (some e) => exact absurd hform (hlast e)
  | .ok none =>
    rw [readForms_of_end hform] at h
    cases h
  | .error cause =>
    rw [readForms_of_error hform] at h hforms
    cases h
    rw [List.append_nil] at hforms
    obtain ⟨c₂, hopening, hinside⟩ := open_of_unexpectedEnd hform
    obtain ⟨inside, c₃, c₄, calls, hreads, hend, hfeeds, hhead⟩ := feeds_of_unexpectedEnd hinside
    refine ⟨inside, calls, ⟨hforms ▸ plain, ?_, hfeeds⟩, hhead⟩
    rw [hforms, result_readAll_eq_ok_iff]
    exact ⟨c₃, c₄, reads_append_iff.2 ⟨c₁, hdone, .cons hopening hreads⟩, hend⟩

namespace EndsInside

theorem openHeads_eq (h : c.EndsInside done inside calls) :
    openHeads (tokensAll done ++ .opening :: inside) = calls.heads := by
  rw [openHeads_append (openHeads_tokensAll h.plain)]
  exact OpenCalls.nest_of_feeds h.feeds

/-! ### Completing the calls -/

/-- **Closing parentheses on a line of their own complete the calls** to a single one. -/
theorem complete (h : c.EndsInside done inside calls) (hhead : calls.innermost.head? = some head)
    (hfree : ¬calls.Blocked) :
    ∃ function arguments, (c.followedBy (List.replicate calls.heads.length ')')).readForms.result
      = .ok (done ++ [.call function arguments]) := by
  have plain : calls.Plain := h.feeds.plain OpenCalls.plain_start
  obtain ⟨function, arguments, hcall, htokens⟩ :=
    OpenCalls.exists_call_of_not_blocked plain hhead hfree
  refine ⟨function, arguments, result_readForms_eq_ok_iff.2 ⟨?_, ?_⟩⟩
  · have hclosings : (c.beyond (List.replicate calls.heads.length ')')).readAll.result
        = .ok (List.replicate calls.heads.length .closing) :=
      result_readAll_eq_ok_iff.2 (written_iff_reads.1 (written_closings _))
    rw [← result_readAll_eq_ok_iff, result_readAll_followedBy _ h.tokens, hclosings,
      tokensAll_append, tokensAll, tokensAll, List.append_nil, htokens,
      h.feeds.tokens OpenCalls.plain_start]
    simp [Except.map, OpenCalls.tokens_start]
  · simpa [or_imp, forall_and] using ⟨h.plain, hcall⟩

/-- **Where a call stands in the place of a head**, no longer text can be read. -/
theorem not_completable (h : c.EndsInside done inside calls) (blocked : calls.Blocked)
    (more : List Char) (es : List Expr) : (c.append more).readForms.result ≠ .ok es := by
  intro hall
  obtain ⟨⟨d₁, d₂, hvs, hend'⟩, -⟩ := result_readForms_eq_ok_iff.1 hall
  obtain ⟨c₁, c₂, hts, hend⟩ := result_readAll_eq_ok_iff.1 h.tokens
  obtain ⟨common, last, others, hcut, hothers, hlast⟩ := exists_common_of_reads hts hend hvs hend'
  obtain ⟨before, calls', rfl, hfeeds, hblocked⟩ :=
    OpenCalls.exists_blocked_of_cut h.feeds blocked hcut hlast
  rw [hothers] at hvs
  obtain ⟨c', hcommon, -⟩ := reads_append_iff.1 hvs
  obtain ⟨c'', hdone, hcall⟩ := reads_append_iff.1 hcommon
  obtain ⟨c₃, hopening, hinside⟩ := reads_cons_iff.1 hcall
  obtain ⟨e, herror⟩ := readInside_of_blocked hblocked #[] c'
  obtain ⟨hsame, -⟩ := readForms_of_open hopening hinside hfeeds herror
  rw [FormRun.result_eq_ok_iff, (readForms_of_reads h.plain hdone).2, hsame] at hall
  cases hall.1

end EndsInside

end Cursor

/-! ### Whole texts -/

/-- **When an unexpected end can be mended.** A text ends inside the call of `head`, so it has
tokens, and calls are open behind them, of which this is the innermost one. Some longer text can be
read exactly if all the others have a head as well, so that no open call stands in the place of one.
In this case a newline and a closing parenthesis for each open call are enough. They make a single
call of what comes behind the complete forms. -/
theorem completion_of_unexpectedEnd {source head : String} {pos : Position}
    (h : parseScript source = .error (.unexpectedEnd head pos)) :
    ∃ ts outer, tokenize source = .ok ts ∧ openHeads ts = some head :: outer ∧
      ((∃ more es, parseScript (source ++ more) = .ok es) ↔ none ∉ outer) ∧
      (none ∉ outer → ∃ function arguments,
        parseScript (source ++ "\n" ++ String.ofList (List.replicate (openHeads ts).length ')'))
          = .ok ((Cursor.ofString source).readForms.forms ++ [.call function arguments])) := by
  obtain ⟨inside, calls, hends, hhead⟩ :=
    Cursor.exists_endsInside (FormRun.result_eq_error_iff.1 h)
  have hopen := hends.openHeads_eq
  have hcomplete : none ∉ calls.outer.map OpenCall.head? → ∃ function arguments,
      parseScript (source ++ "\n" ++ String.ofList (List.replicate calls.heads.length ')'))
        = .ok ((Cursor.ofString source).readForms.forms ++ [.call function arguments]) := by
    intro hfree
    rw [parseScript, Cursor.ofString_newline, String.toList_ofList]
    exact hends.complete hhead (mt OpenCalls.blocked_iff.1 hfree)
  refine ⟨_, calls.outer.map OpenCall.head?, hends.tokens, ?_, ⟨?_, fun hfree => ?_⟩, ?_⟩
  · rw [hopen, OpenCalls.heads, hhead]
  · rintro ⟨more, es, hall⟩ hblocked
    rw [parseScript, Cursor.ofString_append] at hall
    exact hends.not_completable (OpenCalls.blocked_iff.2 hblocked) _ es hall
  · obtain ⟨function, arguments, hall⟩ := hcomplete hfree
    rw [String.append_assoc] at hall
    exact ⟨_, _, hall⟩
  · rw [hopen]
    exact hcomplete

/-- A call in the place of a head cannot be mended. Two calls behind a comment can. -/
theorem completion_of_unexpectedEnd_nested :
    (parseScript "((f 1" = .error (.unexpectedEnd "f" ⟨0, 5⟩) ∧
        ∀ more es, parseScript ("((f 1" ++ more) ≠ .ok es) ∧
      (parseScript "1 (f (g ;x" = .error (.unexpectedEnd "g" ⟨0, 10⟩) ∧
        ∃ function arguments, parseScript ("1 (f (g ;x" ++ "\n" ++ "))")
          = .ok [.atom (.integer 1), .call function arguments]) := by
  have hnested : parseScript "((f 1" = .error (.unexpectedEnd "f" ⟨0, 5⟩) :=
    FormRun.result_eq_error_iff.2 (congrArg FormRun.error? (Cursor.readForms_of_error (by cbv)))
  let c : Cursor := ⟨" (f (g ;x".toList, 1, ⟨0, 1⟩⟩
  have hlast : c.readForm.answer = .error (.unexpectedEnd "g" ⟨0, 10⟩) := by cbv
  have hfirst : (Cursor.ofString "1 (f (g ;x").Reads (tokensAll [.atom (.integer 1)]) c :=
    .cons (by cbv) .nil
  obtain ⟨hforms, herror⟩ :=
    Cursor.readForms_of_reads (by simp [Expr.Plain, Expr.Every]) hfirst
  rw [Cursor.readForms_of_error hlast] at hforms herror
  have hsecond : parseScript "1 (f (g ;x" = .error (.unexpectedEnd "g" ⟨0, 10⟩) :=
    FormRun.result_eq_error_iff.2 herror
  obtain ⟨ts, outer, htokens, hopen, hiff, -⟩ := completion_of_unexpectedEnd hnested
  obtain ⟨ts', outer', htokens', hopen', -, hcomplete⟩ := completion_of_unexpectedEnd hsecond
  have hts : tokenize "((f 1" = .ok [.opening, .opening, .identifier "f", .integer 1] :=
    Cursor.result_readAll_eq_ok_iff.2
      ⟨_, _, .cons (by cbv) (.cons (by cbv) (.cons (by cbv) (.cons (by cbv) .nil))), by cbv⟩
  have hts' : tokenize "1 (f (g ;x"
      = .ok [.integer 1, .opening, .identifier "f", .opening, .identifier "g"] :=
    Cursor.result_readAll_eq_ok_iff.2 ⟨_, _, .cons (by cbv) (.cons (by cbv) (.cons (by cbv)
      (.cons (by cbv) (.cons (by cbv) .nil)))), by cbv⟩
  cases hts.symm.trans htokens
  cases hts'.symm.trans htokens'
  cases hopen
  cases hopen'
  refine ⟨⟨hnested, fun more es hall => ?_⟩, hsecond, ?_⟩
  · exact hiff.1 ⟨more, es, hall⟩ (by decide)
  · rw [hforms] at hcomplete
    exact hcomplete (by decide)

end HostedLisp
