import HostedLisp.Expr.Tokens
import HostedLisp.Form.OpenCall

/-!
# Feeding tokens to open calls

Open calls take the tokens of a program one at a time. They lose none of them and invent none: at
any time they stand for a text that begins the same way as the expression they will become.
`OpenCalls.tokens` are the tokens taken so far, as the open calls remember them, and every token fed
is added to these at the end, whether it opens a call, closes one, or is an atom.

In the other direction, the tokens of an expression are always taken when the expression itself
could be added, and lead to the same open calls.

Both hold as long as no name of a truth value is taken for another name. `OpenCalls.Plain` says so
of everything read so far, and that no call has an argument before it has a head.

## Main definitions

* `OpenCalls.tokens`, `OpenCalls.Plain` — the tokens taken so far; the invariant of reading
* `OpenCalls.Feeds` — some tokens are taken one after the other

## Main results

* `OpenCalls.tokens_of_feed?` — a token that is taken is added, and the invariant is kept
* `OpenCalls.feeds_tokens` — the tokens of an expression are taken where it could be added
-/

namespace HostedLisp

open HostedLisp.Expr

theorem Atom.ofName_boolName (b : Bool) : Atom.ofName (boolName b) = .bool b := by
  cases b <;> rfl

theorem Atom.ofName_of_plain {name : String} (h : PlainName name) :
    Atom.ofName name = .var name := by
  rw [ofName, if_neg h.1, if_neg h.2]

/-- A name is written as itself, whichever atom it denotes. -/
theorem Atom.token_ofName (name : String) : (Atom.ofName name).token = .identifier name := by
  rw [ofName]
  split
  · next h => rw [h]; rfl
  · split
    · next h => rw [h]; rfl
    · rfl

/-- A name never denotes a variable that has the name of a truth value. -/
theorem Atom.plain_ofName (name : String) : (Expr.atom (Atom.ofName name)).Plain := by
  rw [ofName]
  split
  · trivial
  · next htrue =>
    split
    · trivial
    · next hfalse => exact ⟨htrue, hfalse⟩

/-! ### The tokens taken so far -/

namespace OpenCall

/-- The tokens of a call up to the place that reading has reached. -/
def tokens (call : OpenCall) : List Token :=
  .opening :: (call.head?.toList.map .identifier ++ tokensAll call.arguments.reverse)

/-- What is known of a call is plain, and arguments come behind a head. -/
structure Plain (call : OpenCall) : Prop where
  /-- The head is not the name of a truth value. -/
  head : ∀ name ∈ call.head?, PlainName name
  /-- The arguments are plain. -/
  arguments : ∀ e ∈ call.arguments, e.Plain
  /-- There is no argument before there is a head. -/
  headless : call.head? = none → call.arguments = []

theorem plain_empty : Plain empty := ⟨by simp [empty], by simp [empty], fun _ => rfl⟩

/-- An expression that is added is added with all its tokens. -/
theorem tokens_of_add? {call call' : OpenCall} {e : Expr} (h : call.add? e = some call')
    (plain : call.Plain) (he : e.Plain) : call'.Plain ∧ call'.tokens = call.tokens ++ e.tokens := by
  obtain ⟨head?, arguments⟩ := call
  cases head? with
  | some head =>
    cases h
    refine ⟨⟨plain.head, ?_, by simp⟩, ?_⟩
    · simpa using ⟨he, plain.arguments⟩
    · simp [tokens, tokensAll_append, tokensAll]
  | none =>
    obtain rfl : arguments = [] := plain.headless rfl
    rcases e with (_ | _ | _ | name) | _
    case atom.var =>
      cases h
      refine ⟨⟨?_, by simp, by simp⟩, rfl⟩
      intro head hhead
      cases hhead
      exact he
    all_goals cases h

/-- A call that is closed has the tokens taken so far and a closing parenthesis. -/
theorem tokens_of_close? {call : OpenCall} {e : Expr} (h : call.close? = some e)
    (plain : call.Plain) : e.Plain ∧ e.tokens = call.tokens ++ [.closing] := by
  obtain ⟨head?, arguments⟩ := call
  cases head? with
  | none => cases h
  | some head =>
    cases h
    refine ⟨every_call_iff.2 ⟨plain.head head rfl, fun e he => ?_⟩, ?_⟩
    · exact plain.arguments e (List.mem_reverse.1 he)
    · simp [Expr.tokens, tokens]

end OpenCall

namespace OpenCalls

/-- The tokens that the open calls have taken so far, those of the outermost call first. -/
def tokens (calls : OpenCalls) : List Token :=
  calls.outer.reverse.flatMap OpenCall.tokens ++ calls.innermost.tokens

/-- What is known of all open calls is plain. -/
def Plain (calls : OpenCalls) : Prop :=
  calls.innermost.Plain ∧ ∀ call ∈ calls.outer, call.Plain

theorem plain_start : Plain start := ⟨OpenCall.plain_empty, by simp [start]⟩

theorem tokens_start : start.tokens = [.opening] := rfl

end OpenCalls

namespace Progress

/-- The tokens that were taken to get where the progress is. -/
def tokens : Progress → List Token
  | .reading calls => calls.tokens
  | .complete e => e.tokens

/-- What is known is plain. -/
def Plain : Progress → Prop
  | .reading calls => calls.Plain
  | .complete e => e.Plain

end Progress

/-! ### Nothing is lost and nothing invented -/

namespace OpenCalls

variable {calls calls' calls₁ calls₂ : OpenCalls} {t : Token} {ts us : List Token}

theorem tokens_of_add? {e : Expr} (h : calls.add? e = some calls') (plain : calls.Plain)
    (he : e.Plain) : calls'.Plain ∧ calls'.tokens = calls.tokens ++ e.tokens := by
  obtain ⟨innermost, hadd, rfl⟩ := Option.map_eq_some_iff.1 h
  obtain ⟨hplain, htokens⟩ := OpenCall.tokens_of_add? hadd plain.1 he
  refine ⟨⟨hplain, plain.2⟩, ?_⟩
  rw [tokens, tokens, htokens, List.append_assoc]

theorem tokens_of_close? {progress : Progress} (h : calls.close? = some progress)
    (plain : calls.Plain) :
    progress.Plain ∧ progress.tokens = calls.tokens ++ [.closing] := by
  obtain ⟨innermost, outer⟩ := calls
  obtain ⟨e, hclose, h⟩ := Option.bind_eq_some_iff.1 h
  obtain ⟨he, htokens⟩ := OpenCall.tokens_of_close? hclose plain.1
  cases outer with
  | nil =>
    cases h
    exact ⟨he, by simpa [Progress.tokens, tokens] using htokens⟩
  | cons call outer =>
    obtain ⟨call', hadd, rfl⟩ := Option.map_eq_some_iff.1 h
    obtain ⟨hcall, htokens'⟩ := OpenCall.tokens_of_add? hadd (plain.2 call (by simp)) he
    refine ⟨⟨hcall, fun c hc => plain.2 c (by simp [hc])⟩, ?_⟩
    simp [Progress.tokens, tokens, htokens, htokens']

/-- **A token that is taken is added to those taken before**, and nothing else changes. -/
theorem tokens_of_feed? {progress : Progress} (h : calls.feed? t = some progress)
    (plain : calls.Plain) : progress.Plain ∧ progress.tokens = calls.tokens ++ [t] := by
  have atoms : ∀ a : Atom, (Expr.atom a).Plain →
      (calls.add? (.atom a)).map .reading = some progress →
        progress.Plain ∧ progress.tokens = calls.tokens ++ [a.token] := by
    intro a ha h
    obtain ⟨calls', hadd, rfl⟩ := Option.map_eq_some_iff.1 h
    exact tokens_of_add? hadd plain ha
  cases t with
  | opening =>
    cases h
    refine ⟨⟨OpenCall.plain_empty, List.forall_mem_cons.2 plain⟩, ?_⟩
    simp [Progress.tokens, tokens, OpenCall.tokens, OpenCall.empty, tokensAll]
  | closing => exact tokens_of_close? h plain
  | integer value => exact atoms (.integer value) trivial h
  | string content => exact atoms (.string content) trivial h
  | identifier name =>
    have hname := atoms (.ofName name) (Atom.plain_ofName name) h
    rwa [Atom.token_ofName] at hname

theorem tokens_of_feed?_reading (h : calls.feed? t = some (.reading calls₁))
    (plain : calls.Plain) : calls₁.Plain ∧ calls₁.tokens = calls.tokens ++ [t] :=
  tokens_of_feed? h plain

/-! ### The tokens of an expression are taken -/

/-- Some tokens are taken one after the other, and some calls are open all the time. -/
inductive Feeds : OpenCalls → List Token → OpenCalls → Prop where
  /-- Without any tokens nothing changes. -/
  | nil {calls : OpenCalls} : Feeds calls [] calls
  /-- A token and then the others. -/
  | cons {calls calls₁ calls₂ : OpenCalls} {t : Token} {ts : List Token}
      (first : calls.feed? t = some (.reading calls₁)) (others : Feeds calls₁ ts calls₂) :
      Feeds calls (t :: ts) calls₂

theorem Feeds.single (h : calls.feed? t = some (.reading calls₁)) : Feeds calls [t] calls₁ :=
  .cons h .nil

theorem Feeds.append (h₁ : Feeds calls ts calls₁) (h₂ : Feeds calls₁ us calls₂) :
    Feeds calls (ts ++ us) calls₂ := by
  induction h₁ with
  | nil => exact h₂
  | cons first _ ih => exact .cons first (ih h₂)

theorem feeds_append_iff :
    Feeds calls (ts ++ us) calls₂ ↔ ∃ calls₁, Feeds calls ts calls₁ ∧ Feeds calls₁ us calls₂ := by
  refine ⟨fun h => ?_, fun ⟨calls₁, hts, hus⟩ => hts.append hus⟩
  induction ts generalizing calls with
  | nil => exact ⟨calls, .nil, h⟩
  | cons t ts ih =>
    cases h with
    | cons first others =>
      obtain ⟨calls₁, hts, hus⟩ := ih others
      exact ⟨calls₁, .cons first hts, hus⟩

theorem Feeds.plain (h : calls.Feeds ts calls₁) (plain : calls.Plain) : calls₁.Plain := by
  induction h with
  | nil => exact plain
  | cons first _ ih => exact ih (tokens_of_feed?_reading first plain).1

/-- **Some tokens that are taken are added to those taken before.** -/
theorem Feeds.tokens (h : calls.Feeds ts calls₁) (plain : calls.Plain) :
    calls₁.tokens = calls.tokens ++ ts := by
  induction h with
  | nil => rw [List.append_nil]
  | cons first _ ih =>
    obtain ⟨hplain, htokens⟩ := tokens_of_feed?_reading first plain
    rw [ih hplain, htokens, List.append_assoc]
    rfl

/-- The token of an atom is taken for that atom. -/
theorem feed?_token {a : Atom} (plain : (Expr.atom a).Plain) :
    calls.feed? a.token = (calls.add? (.atom a)).map .reading := by
  cases a with
  | integer _ | string _ => rfl
  | bool b => rw [Atom.token, feed?, Atom.ofName_boolName]
  | var name => rw [Atom.token, feed?, Atom.ofName_of_plain plain]

/-- A name that is not the name of a truth value becomes the head of a call. -/
theorem feed?_head {name : String} (plain : PlainName name) (outer : List OpenCall) :
    feed? ⟨.empty, outer⟩ (.identifier name) = some (.reading ⟨⟨some name, []⟩, outer⟩) := by
  rw [feed?, Atom.ofName_of_plain plain]
  rfl

theorem feed?_closing (head : String) (arguments : List Expr) (call : OpenCall)
    (outer : List OpenCall) :
    feed? ⟨⟨some head, arguments⟩, call :: outer⟩ .closing
      = (call.add? (.call head arguments.reverse)).map fun call => .reading ⟨call, outer⟩ := rfl

mutual

/-- **The tokens of an expression are taken where it could be added**, with the same effect. -/
theorem feeds_tokens {calls calls' : OpenCalls} (e : Expr) (plain : e.Plain)
    (h : calls.add? e = some calls') : Feeds calls e.tokens calls' := by
  match e with
  | .atom a =>
    refine .single ?_
    rw [feed?_token plain, h]
    rfl
  | .call function arguments =>
    obtain ⟨hfunction, harguments⟩ := every_call_iff.1 plain
    obtain ⟨innermost, hadd, rfl⟩ := Option.map_eq_some_iff.1 h
    have parts := feeds_tokensAll arguments harguments function [] (calls.innermost :: calls.outer)
    -- The parenthesis opens a call around nothing, and the closing one adds it where it belongs.
    refine .cons rfl (.cons (feed?_head hfunction _) (parts.append (.single ?_)))
    rw [feed?_closing, List.append_nil, List.reverse_reverse, hadd]
    rfl

/-- The tokens of some arguments are taken behind a head. -/
theorem feeds_tokensAll (es : List Expr) (plain : ∀ e ∈ es, e.Plain) (head : String)
    (arguments : List Expr) (outer : List OpenCall) :
    Feeds ⟨⟨some head, arguments⟩, outer⟩ (tokensAll es)
      ⟨⟨some head, es.reverse ++ arguments⟩, outer⟩ := by
  match es with
  | [] => exact .nil
  | e :: es =>
    have hadd : add? ⟨⟨some head, arguments⟩, outer⟩ e
        = some ⟨⟨some head, e :: arguments⟩, outer⟩ := rfl
    have first := feeds_tokens e (plain e (by simp)) hadd
    have hothers : ∀ e ∈ es, e.Plain := fun e he => plain e (by simp [he])
    have others := feeds_tokensAll es hothers head (e :: arguments) outer
    rw [List.reverse_cons, List.append_assoc]
    exact first.append others

end

/-- The tokens of a call are taken behind its opening parenthesis. -/
theorem feeds_start {function : String} {arguments : List Expr}
    (plain : (call function arguments).Plain) :
    Feeds .start (.identifier function :: tokensAll arguments)
      ⟨⟨some function, arguments.reverse⟩, []⟩ := by
  obtain ⟨hfunction, harguments⟩ := every_call_iff.1 plain
  have hparts := feeds_tokensAll arguments harguments function [] []
  rw [List.append_nil] at hparts
  exact .cons (feed?_head hfunction []) hparts

theorem feed?_closing_outermost (head : String) (arguments : List Expr) :
    feed? ⟨⟨some head, arguments⟩, []⟩ .closing
      = some (.complete (.call head arguments.reverse)) := rfl

end OpenCalls

end HostedLisp
