import Mathlib
import HostedLisp.Proofs.Token.Rendering
import HostedLisp.Token.Fault

/-!
# The fault of a text that cannot be cut into tokens

Reading tokens fails at the first fault of a text, and a text has one first fault only.
`FaultySplit` says without reading what it is to be the first fault: what stands in front of it is a
way to write some tokens. The tokens are those that are read before the error, and the error tells
of the fault and of the place where it stands.

That a quote is closed by no other quote is seen from the whole rest of the text: every later quote
has an odd number of backslashes in front of it. The scanner knows only whether the last character
was a backslash that escapes; `escapedAfter_false` says that this is the same.

## Main results

* `scanString_eq_none_iff` — the string literals that do not end
* `Cursor.readNext_of_fault`, `Cursor.fault_of_readNext` — an error is a fault behind a gap
* `Cursor.reads_of_writtenBefore`, `Cursor.writtenBefore_of_reads` — the tokens in front of a fault
* `tokenize_eq_error_iff_split` — a text cannot be cut into tokens exactly if it has a fault
-/

namespace HostedLisp

/-! ### Escaped characters -/

/-- Whether the character behind `inside` is escaped, when `escaped` says so of the first one. -/
def escapedAfter (escaped : Bool) (inside : List Char) : Bool :=
  inside.foldl (fun escaped c => !escaped && c == '\\') escaped

theorem escapedAfter_cons (escaped : Bool) (c : Char) (inside : List Char) :
    escapedAfter escaped (c :: inside) = escapedAfter (!escaped && c == '\\') inside := rfl

/-- A backslash escapes the next character unless it is escaped itself. -/
theorem isEscapedBehind_append (inside : List Char) (c : Char) :
    isEscapedBehind (inside ++ [c]) = (!isEscapedBehind inside && c == '\\') := by
  rw [isEscapedBehind, isEscapedBehind, List.reverse_append, List.reverse_singleton,
    List.singleton_append, List.takeWhile_cons]
  by_cases hc : c = '\\'
  · rw [if_pos (by simp [hc]), List.length_cons]
    rcases Nat.mod_two_eq_zero_or_one (inside.reverse.takeWhile (· == '\\')).length with h | h <;>
      simp [hc, h, Nat.add_mod]
  · simp [hc]

/-- **The next character is escaped by an odd number of backslashes.** The induction is on the text
read backwards, since the last character decides. -/
theorem escapedAfter_false (inside : List Char) :
    escapedAfter false inside = isEscapedBehind inside := by
  induction inside using List.reverseRecOn with
  | nil => rfl
  | append_singleton inside c ih =>
    rw [isEscapedBehind_append, ← ih, escapedAfter, escapedAfter, List.foldl_append]
    rfl

/-- A quote in a text is its first character or stands behind it. -/
theorem forall_quote_cons {c : Char} {cs : List Char} {P : List Char → Prop} :
    (∀ inside rest, c :: cs = inside ++ '"' :: rest → P inside) ↔
      (c = '"' → P []) ∧ ∀ inside rest, cs = inside ++ '"' :: rest → P (c :: inside) := by
  constructor
  · intro h
    exact ⟨fun hc => h [] cs (by rw [hc]; rfl), fun inside rest hcs => h _ rest (by rw [hcs]; rfl)⟩
  · rintro ⟨hfirst, hothers⟩ inside rest hcs
    cases inside with
    | nil => exact hfirst (List.cons.inj hcs).1
    | cons d inside =>
      obtain ⟨rfl, hrest⟩ := List.cons.inj hcs
      exact hothers inside rest hrest

/-- **A string literal does not end where every quote is escaped.** -/
theorem scanString_eq_none_iff {lexeme content cs : List Char} {escaped : Bool} :
    scanString lexeme content escaped cs = none ↔
      ∀ inside rest, cs = inside ++ '"' :: rest → escapedAfter escaped inside := by
  fun_induction scanString lexeme content escaped cs with
  | case1 => simp
  | case2 lexeme content c cs ih =>
    rw [ih, forall_quote_cons]
    exact (and_iff_right fun _ => rfl).symm
  | case3 lexeme content escaped cs hescaped ih =>
    obtain rfl : escaped = false := by simpa using hescaped
    rw [ih, forall_quote_cons]
    exact (and_iff_right (by simp)).symm
  | case4 lexeme content escaped cs hescaped =>
    obtain rfl : escaped = false := by simpa using hescaped
    rw [forall_quote_cons]
    simp [escapedAfter]
  | case5 lexeme content escaped c cs hescaped hslash hquote ih =>
    obtain rfl : escaped = false := by simpa using hescaped
    have hnext : (!false && c == '\\') = false := by simp [hslash]
    rw [ih, forall_quote_cons]
    simp only [escapedAfter_cons, hnext]
    exact (and_iff_right fun hc => absurd hc hquote).symm

/-- **The strings without an end.** -/
theorem front_eq_unterminated_iff {cs : List Char} :
    front cs = .unterminated ↔ Fault.unterminated.At cs := by
  have hscan (behind : List Char) : scanString ['"'] [] false behind = none ↔
      ∀ inside rest, behind = inside ++ '"' :: rest → isEscapedBehind inside := by
    simp only [scanString_eq_none_iff, escapedAfter_false]
  constructor
  · intro h
    cases cs with
    | nil => cases h
    | cons c cs =>
      by_cases hquote : c = '"'
      · subst hquote
        rw [front_quote] at h
        split at h
        · cases h
        · next hnone => exact ⟨cs, rfl, (hscan cs).1 hnone⟩
      · simp only [front, if_neg hquote] at h
        repeat' split at h
        all_goals cases h
  · rintro ⟨behind, rfl, hescaped⟩
    rw [front_quote, (hscan behind).2 hescaped]

/-! ### What a digit may stand behind -/

/-- No lexeme goes on with the first character of the text, unless that is a digit. -/
def SticksByDigit (text : List Char) : Prop := ∀ d ∈ text.head?, continuesName d → d.isDigit

theorem sticksByDigit_digits {digits : List Char} (nonempty : digits ≠ [])
    (all : ∀ c ∈ digits, c.isDigit) (rest : List Char) : SticksByDigit (digits ++ rest) := by
  obtain ⟨d, ds, rfl⟩ := List.exists_cons_of_ne_nil nonempty
  intro c hc _
  cases hc
  exact all d (by simp)

theorem SticksByDigit.goesOnWith_iff {text : List Char} (h : SticksByDigit text) (b : Token) :
    (∀ d ∈ text.head?, b.goesOnWith d = false) ↔
      (b.takesDigit → ∀ d ∈ text.head?, d.isDigit = false) := by
  have digit {d : Char} (hd : d.isDigit) : b.goesOnWith d = b.takesDigit := by
    cases b <;> simp [Token.goesOnWith, Token.takesDigit, continuesName_eq, hd]
  constructor
  · intro hclear htakes d hd
    by_contra hdigit
    rw [Bool.not_eq_false] at hdigit
    exact absurd (hclear d hd) (by rw [digit hdigit, htakes]; simp)
  · intro hclear d hd
    by_cases hcontinues : continuesName d
    · have hdigit : d.isDigit := h d hd hcontinues
      rw [digit hdigit]
      by_contra htakes
      exact absurd (hclear (by simpa using htakes) d hd) (by simp [hdigit])
    · exact goesOnWith_of_not_continuesName (by simpa using hcontinues) b

/-! ### Faults at the front of a text -/

namespace Fault

variable {f g : Fault} {text rest : List Char}

/-- What is found at the front of a text that starts with a fault. -/
def found (text : List Char) : Fault → Front
  | unexpected char => .unexpected char
  | unterminated => .unterminated
  | overflow digits => .overflow digits (text.drop digits.length)

/-- A run of digits has no value that fits if it is too large. -/
theorem decimal?_eq_none_iff {digits : List Char} :
    decimal? digits = none ↔ integerBound ≤ digitsValue digits := by
  rw [← Nat.not_lt, Option.eq_none_iff_forall_ne_some]
  simp only [ne_eq, decimal?_eq_some_iff]
  exact ⟨fun h hlt => h _ ⟨rfl, hlt⟩, fun h n ⟨hn, hlt⟩ => h (hn ▸ hlt)⟩

theorem At.front_eq (h : f.At text) : front text = f.found text := by
  cases f with
  | unexpected char =>
    obtain ⟨hhead, -, -, hquote, hdigit, hname, hopening, hclosing⟩ := h
    exact front_eq_unexpected_iff.2 ⟨hhead, hquote, hdigit, hname, hopening, hclosing⟩
  | unterminated => exact front_eq_unterminated_iff.2 h
  | overflow digits =>
    obtain ⟨behind, rfl, hne, hall, hbehind, hlarge⟩ := h
    rw [found, List.drop_left]
    exact front_eq_overflow_iff.2 ⟨hne, hall, decimal?_eq_none_iff.2 hlarge, rfl, hbehind⟩

/-- **A text starts with one fault only.** -/
theorem At.unique (hf : f.At text) (hg : g.At text) : f = g := by
  have hfound : f.found text = g.found text := hf.front_eq.symm.trans hg.front_eq
  cases f <;> cases g <;> simp_all [found]

theorem At.ne_nil (h : f.At text) : text ≠ [] := by
  rintro rfl
  have hfront := h.front_eq
  cases f <;> cases hfront

/-- A fault is no gap. -/
theorem At.noLeadingGap (h : f.At text) : NoLeadingGap text := by
  cases f with
  | unexpected char =>
    obtain ⟨hhead, hblank, hcomment, -⟩ := h
    intro c hc
    obtain rfl : char = c := Option.some.inj (hhead.symm.trans hc)
    exact ⟨hblank, hcomment⟩
  | unterminated =>
    obtain ⟨behind, rfl, -⟩ := h
    exact noLeadingGap_cons.2 (by decide)
  | overflow digits =>
    obtain ⟨behind, rfl, hne, hall, -⟩ := h
    obtain ⟨d, ds, rfl⟩ := List.exists_cons_of_ne_nil hne
    have hdigit : (Token.integer 0).beginsWith d := hall d (by simp)
    exact noLeadingGap_cons.2 (not_startsGap_of_beginsWith hdigit)

/-- What is found at the front of a text is a fault if it is neither a token nor the end. -/
theorem at_of_front (hgap : NoLeadingGap text) (hend : front text ≠ .nothing)
    (htoken : ∀ t lexeme rest, front text ≠ .token t lexeme rest) : ∃ f : Fault, f.At text := by
  match hfront : front text with
  | .nothing => exact absurd hfront hend
  | .token t lexeme rest => exact absurd hfront (htoken t lexeme rest)
  | .unterminated => exact ⟨unterminated, front_eq_unterminated_iff.1 hfront⟩
  | .overflow digits rest =>
    obtain ⟨hne, hall, hlarge, rfl, hrest⟩ := front_eq_overflow_iff.1 hfront
    exact ⟨overflow digits, rest, rfl, hne, hall, hrest, decimal?_eq_none_iff.1 hlarge⟩
  | .unexpected char =>
    obtain ⟨hhead, hclass⟩ := front_eq_unexpected_iff.1 hfront
    obtain ⟨hblank, hcomment⟩ := hgap char hhead
    exact ⟨unexpected char, hhead, hblank, hcomment, hclass⟩

/-- **Only a digit of a fault could belong to a lexeme in front of it.** -/
theorem At.sticksByDigit (h : f.At text) : SticksByDigit text := by
  cases f with
  | unexpected char =>
    obtain ⟨hhead, -, -, -, hdigit, hname, -⟩ := h
    intro d hd hcontinues
    obtain rfl : char = d := Option.some.inj (hhead.symm.trans hd)
    rw [continuesName_eq, hdigit, hname] at hcontinues
    cases hcontinues
  | unterminated =>
    obtain ⟨behind, rfl, -⟩ := h
    intro d hd hcontinues
    cases hd
    exact absurd hcontinues (by decide)
  | overflow digits =>
    obtain ⟨behind, rfl, hne, hall, -⟩ := h
    exact sticksByDigit_digits hne hall behind

end Fault

/-! ### Tokens in front of a fault -/

section

variable {f : Fault} {rest text : List Char} {ts us : List Token}

/-- The first character of what stands in front of a text decides what may stand before it. -/
theorem writtenBefore_iff (hrest : SticksByDigit rest) {before? : Option Token} :
    WrittenBefore rest before? ts text ↔
      WrittenBefore rest none ts text ∧
        ∀ b ∈ before?, ∀ d ∈ (text ++ rest).head?, b.goesOnWith d = false := by
  have last {gap : List Char} (isGap : Gap false gap) (b : Token) :
      (∀ d ∈ (gap ++ rest).head?, b.goesOnWith d = false) ↔
        (gap = [] → b.takesDigit → ∀ d ∈ rest.head?, d.isDigit = false) := by
    cases gap with
    | nil => simpa using hrest.goesOnWith_iff b
    | cons c gap => simp [goesOnWith_of_startsGap (isGap.head_eq rfl) b]
  have token {t : Token} {gap lexeme text : List Char} (isGap : Gap false gap)
      (isLexeme : Lexeme t lexeme) (b : Token) :
      (∀ d ∈ (gap ++ lexeme ++ text ++ rest).head?, b.goesOnWith d = false) ↔
        (t.sticksTo b → gap ≠ []) := by
    rw [List.append_assoc]
    exact goesOnWith_of_head isGap isLexeme _ b
  constructor
  · intro h
    cases h with
    | nil isGap apart =>
      exact ⟨.nil isGap (by simp), fun b hb => (last isGap b).2 fun hnil => apart hnil b hb⟩
    | cons isGap apart isLexeme others =>
      exact ⟨.cons isGap (by simp) isLexeme others, fun b hb =>
        (token isGap isLexeme b).2 (apart b hb)⟩
  · rintro ⟨h, hclear⟩
    cases h with
    | nil isGap _ => exact .nil isGap fun hnil b hb => (last isGap b).1 (hclear b hb) hnil
    | cons isGap _ isLexeme others =>
      exact .cons isGap (fun b hb => (token isGap isLexeme b).1 (hclear b hb)) isLexeme others

namespace Cursor

variable {c c₁ c₂ c₃ c₄ : Cursor} {e : LexError} {gap : List Char}

/-- **A fault behind a gap is an error.** -/
theorem readNext_of_fault (hfault : f.At rest) (hgap : Gap false gap)
    (h : gap ++ rest = c.unread) : c.readNext.1 = .error (f.error (c.pos.after gap)) := by
  have hcut : splitGap c.unread = (gap, rest) := by
    refine splitGap_eq_iff.2 ⟨h, ?_, hfault.noLeadingGap⟩
    rwa [List.isEmpty_eq_false_iff.2 hfault.ne_nil]
  rw [readNext, skipGap, hcut, unread_advance, hfault.front_eq]
  cases f <;> rfl

/-- **An error is a fault behind a gap.** -/
theorem fault_of_readNext (h : c.readNext = (.error e, c₁)) :
    ∃ (f : Fault) (gap rest : List Char), f.At rest ∧ Gap false gap ∧ gap ++ rest = c.unread ∧
      e = f.error (c.pos.after gap) := by
  obtain ⟨gap, rest, hcut⟩ : ∃ gap rest, splitGap c.unread = (gap, rest) := ⟨_, _, rfl⟩
  obtain ⟨happend, hgap, hleading⟩ := splitGap_eq_iff.1 hcut
  obtain ⟨f, hfault⟩ : ∃ f : Fault, f.At rest := by
    refine Fault.at_of_front hleading (fun hend => ?_) fun t lexeme behind htoken => ?_
    · rw [readNext, skipGap, hcut, unread_advance, hend] at h
      cases h
    · rw [readNext, skipGap, hcut, unread_advance, htoken] at h
      cases h
  rw [List.isEmpty_eq_false_iff.2 hfault.ne_nil] at hgap
  have herror := readNext_of_fault hfault hgap happend
  rw [h] at herror
  exact ⟨f, gap, rest, hfault, hgap, happend, Except.error.inj herror⟩

/-- **The tokens that are written in front of a text are read**, and a gap is left between the last
one and the text. The induction is on the tokens. -/
theorem reads_of_writtenBefore (hrest : SticksByDigit rest) (h : WrittenBefore rest none ts text)
    (hc : text ++ rest = c.unread) :
    ∃ c₁ gap, c.Reads ts c₁ ∧ Gap false gap ∧ gap ++ rest = c₁.unread ∧
      c₁.pos.after gap = c.pos.after text := by
  induction ts generalizing c text with
  | nil =>
    cases h with
    | nil isGap _ => exact ⟨c, text, .nil, isGap, hc, rfl⟩
  | cons t ts ih =>
    cases h with
    | @cons _ _ _ gap lexeme text isGap _ isLexeme others =>
      obtain ⟨hothers, hclear⟩ := (writtenBefore_iff hrest).1 others
      rw [List.append_assoc] at hc
      have first : c.readNext = (.ok (some t), c.advance (gap ++ lexeme) (text ++ rest)) :=
        readNext_eq_token_iff.2 ⟨gap, lexeme, text ++ rest, isGap, isLexeme, hc, hclear t rfl, rfl⟩
      obtain ⟨c₁, last, hreads, hlast, hunread, hpos⟩ :=
        ih (c := c.advance (gap ++ lexeme) (text ++ rest)) hothers rfl
      refine ⟨c₁, last, .cons first hreads, hlast, hunread, ?_⟩
      rw [hpos, pos_advance, ← Position.after_append]

/-- **What is read before an error is written in front of a fault.** -/
theorem writtenBefore_of_reads (h : c.Reads ts c₁) (hend : c₁.readNext = (.error e, c₂)) :
    ∃ (f : Fault) (text rest : List Char), f.At rest ∧ WrittenBefore rest none ts text ∧
      text ++ rest = c.unread ∧ e = f.error (c.pos.after text) := by
  induction h with
  | nil =>
    obtain ⟨f, gap, rest, hfault, hgap, happend, rfl⟩ := fault_of_readNext hend
    exact ⟨f, gap, rest, hfault, .nil hgap (by simp), happend, rfl⟩
  | cons first _ ih =>
    obtain ⟨f, text, rest, hfault, hwritten, happend, rfl⟩ := ih hend
    obtain ⟨gap, lexeme, behind, hgap, hlexeme, hfirst, hclear, rfl⟩ :=
      readNext_eq_token_iff.1 first
    obtain rfl : text ++ rest = behind := happend
    refine ⟨f, gap ++ lexeme ++ text, rest, hfault, ?_, ?_, ?_⟩
    · exact .cons hgap (by simp) hlexeme
        ((writtenBefore_iff hfault.sticksByDigit).2 ⟨hwritten, by simpa using hclear⟩)
    · rw [List.append_assoc, hfirst]
    · rw [pos_advance, ← Position.after_append]

/-- Reading goes one way only, up to where there is no further token. -/
theorem reads_unique (h : c.Reads ts c₁) (hend : ∀ t, c₁.readNext.1 ≠ .ok (some t))
    (h' : c.Reads us c₂) (hend' : ∀ t, c₂.readNext.1 ≠ .ok (some t)) : ts = us ∧ c₁ = c₂ := by
  induction h generalizing us with
  | nil =>
    cases h' with
    | nil => exact ⟨rfl, rfl⟩
    | cons first _ => exact absurd (congrArg Prod.fst first) (hend _)
  | cons first _ ih =>
    cases h' with
    | nil => exact absurd (congrArg Prod.fst first) (hend' _)
    | cons first' others =>
      obtain ⟨htoken, rfl⟩ := Prod.mk.inj (first.symm.trans first')
      cases htoken
      obtain ⟨rfl, hlast⟩ := ih hend others
      exact ⟨rfl, hlast⟩

/-- **Reading all tokens fails where pulling them one after the other does.** -/
theorem result_readAll_eq_error_iff :
    c.readAll.result = .error e ↔ ∃ ts c₁ c₂, c.Reads ts c₁ ∧ c₁.readNext = (.error e, c₂) := by
  obtain ⟨us, c₃, hus, hlast⟩ := exists_reads c
  obtain ⟨answer, c₄, hnext⟩ : ∃ answer c₄, c₃.readNext = (answer, c₄) := ⟨_, _, rfl⟩
  have hresult : c.readAll.result = .error e ↔ answer = .error e := by
    rw [readAll, readOnto_of_reads hus, readOnto_eq, hnext]
    rcases answer with cause | _ | t
    · simp [TokenRun.result]
    · simp [TokenRun.result]
    · exact absurd (congrArg Prod.fst hnext) (hlast t)
  rw [hresult]
  constructor
  · rintro rfl
    exact ⟨us, c₃, c₄, hus, hnext⟩
  · rintro ⟨ts, c₁, c₂, hts, herror⟩
    obtain ⟨-, rfl⟩ := reads_unique hts (by simp [herror]) hus hlast
    exact congrArg Prod.fst (hnext.symm.trans herror)

end Cursor

end

/-! ### Whole texts -/

namespace FaultySplit

variable {text : List Char}

/-- **The tokens in front of a fault are read, and then the error.** -/
theorem reads (split : FaultySplit text) :
    ∃ c₁ gap, (Cursor.ofList text).Reads split.tokens c₁ ∧ Gap false gap ∧
      gap ++ split.rest = c₁.unread ∧ c₁.readNext.1 = .error split.error := by
  obtain ⟨c₁, gap, hreads, hgap, hunread, hpos⟩ :=
    Cursor.reads_of_writtenBefore split.faulty.sticksByDigit split.written
      (c := Cursor.ofList text) split.append
  refine ⟨c₁, gap, hreads, hgap, hunread, ?_⟩
  rw [Cursor.readNext_of_fault split.faulty hgap hunread, hpos]
  rfl

/-- **There is one first fault only.** Reading finds the same tokens and stops at the same place. -/
theorem eq_of_text (split other : FaultySplit text) : split = other := by
  obtain ⟨c₁, gap₁, hreads₁, hgap₁, hunread₁, herror₁⟩ := split.reads
  obtain ⟨c₂, gap₂, hreads₂, hgap₂, hunread₂, herror₂⟩ := other.reads
  obtain ⟨htokens, rfl⟩ :=
    Cursor.reads_unique hreads₁ (by simp [herror₁]) hreads₂ (by simp [herror₂])
  have cut {gap : List Char} (split : FaultySplit text) (hgap : Gap false gap)
      (hunread : gap ++ split.rest = c₁.unread) : splitGap c₁.unread = (gap, split.rest) := by
    refine splitGap_eq_iff.2 ⟨hunread, ?_, split.faulty.noLeadingGap⟩
    rwa [List.isEmpty_eq_false_iff.2 split.faulty.ne_nil]
  have hrest : split.rest = other.rest :=
    congrArg Prod.snd ((cut split hgap₁ hunread₁).symm.trans (cut other hgap₂ hunread₂))
  have hbefore : split.before = other.before := by
    have happend : split.before ++ split.rest = other.before ++ split.rest := by
      rw [split.append, hrest, other.append]
    exact List.append_cancel_right happend
  exact FaultySplit.ext hbefore hrest htokens (split.faulty.unique (hrest ▸ other.faulty))

end FaultySplit

/-- An error of reading all tokens tells of a fault. -/
theorem exists_split_of_tokenize {source : String} {e : LexError}
    (h : tokenize source = .error e) :
    ∃ split : FaultySplit source.toList, e = split.error := by
  obtain ⟨ts, c₁, c₂, hreads, hnext⟩ := Cursor.result_readAll_eq_error_iff.1 h
  obtain ⟨f, before, rest, hfault, hwritten, happend, herror⟩ :=
    Cursor.writtenBefore_of_reads hreads hnext
  exact ⟨⟨before, rest, ts, f, happend, hwritten, hfault⟩, herror⟩

/-- The error that tells of the fault is the first one. -/
theorem FaultySplit.tokenize_eq {source : String} (split : FaultySplit source.toList) :
    tokenize source = .error split.error := by
  obtain ⟨c₁, -, hreads, -, -, herror⟩ := split.reads
  exact Cursor.result_readAll_eq_error_iff.2 ⟨_, c₁, _, hreads, Prod.ext herror rfl⟩

/-- Digits of a value that fits are read wherever they stand, however many they are. -/
theorem reads_digits {text before digits rest : List Char} {ts : List Token}
    (happend : before ++ (digits ++ rest) = text)
    (hwritten : WrittenBefore (digits ++ rest) none ts before) (nonempty : digits ≠ [])
    (all : ∀ c ∈ digits, c.isDigit) (hrest : ∀ c ∈ rest.head?, c.isDigit = false)
    (bound : digitsValue digits < integerBound) :
    ∃ c₁ c₂ value, (Cursor.ofList text).Reads ts c₁ ∧
      c₁.readNext = (.ok (some (.integer value)), c₂) ∧ value.toInt = digitsValue digits ∧
      c₂.unread = rest := by
  obtain ⟨c₁, gap, hreads, hgap, hunread, -⟩ :=
    Cursor.reads_of_writtenBefore (sticksByDigit_digits nonempty all rest) hwritten
      (c := Cursor.ofList text) happend
  rw [← List.append_assoc] at hunread
  have hnext := Cursor.readNext_eq_token_iff.2
    ⟨gap, digits, rest, hgap, .integer nonempty all bound, hunread, hrest, rfl⟩
  exact ⟨c₁, _, _, hreads, hnext, Int64.toInt_ofNat_of_lt bound, rfl⟩

/-- **A text cannot be cut into tokens exactly if it has a fault**, and it has one first fault only.
The tokens in front of the fault are read one after the other, and the error that is met then tells
of the fault and of the place where it stands, with the code point of an unexpected character.
Digits of a value that fits are no fault, however many they are. -/
theorem tokenize_eq_error_iff_split (source : String) (e : LexError) :
    (tokenize source = .error e ↔ ∃ split : FaultySplit source.toList, e = split.error) ∧
      (∀ split other : FaultySplit source.toList, split = other) ∧
      (∀ split : FaultySplit source.toList, ∃ c₁,
        (Cursor.ofString source).Reads split.tokens c₁ ∧ c₁.readNext.1 = .error split.error) ∧
      (∀ (split : FaultySplit source.toList) (char : Char), split.fault = .unexpected char →
        tokenize source
            = .error (.unexpectedChar char char.val (Position.origin.after split.before)) ∧
          split.error.message = "Unable to parse character '" ++ char.toString ++ "'(ord#"
            ++ toString char.toNat ++ ") at " ++ toString (Position.origin.after split.before)) ∧
      ∀ before digits rest ts, before ++ (digits ++ rest) = source.toList →
        WrittenBefore (digits ++ rest) none ts before → digits ≠ [] → (∀ c ∈ digits, c.isDigit) →
        (∀ c ∈ rest.head?, c.isDigit = false) → digitsValue digits < integerBound →
        ∃ c₁ c₂ value, (Cursor.ofString source).Reads ts c₁ ∧
          c₁.readNext = (.ok (some (.integer value)), c₂) ∧ value.toInt = digitsValue digits ∧
          c₂.unread = rest := by
  refine ⟨⟨exists_split_of_tokenize, ?_⟩, FaultySplit.eq_of_text, fun split => ?_,
    fun split char hchar => ?_, fun before digits rest ts => reads_digits⟩
  · rintro ⟨split, rfl⟩
    exact split.tokenize_eq
  · obtain ⟨c₁, -, hreads, -, -, herror⟩ := split.reads
    exact ⟨c₁, hreads, herror⟩
  · have herror : split.error
        = .unexpectedChar char char.val (Position.origin.after split.before) := by
      rw [FaultySplit.error, hchar]
      rfl
    rw [split.tokenize_eq, herror]
    exact ⟨rfl, rfl⟩

/-- A name and digits are read in front of a character that no token starts with. -/
def atSignSplit : FaultySplit "f 007 @".toList where
  before := "f 007 ".toList
  rest := ['@']
  tokens := [.identifier "f", .integer 7]
  fault := .unexpected '@'
  append := by decide
  written := by
    have hname : Lexeme (.identifier "f") ['f'] :=
      .identifier ⟨'f', [], rfl, by decide, by simp⟩
    have hdigits : Lexeme (.integer 7) ['0', '0', '7'] :=
      @Lexeme.integer ['0', '0', '7'] (by simp) (by simp) (by decide)
    exact .cons .nil (by simp) hname (.cons (.blank (by decide) .nil) (by simp) hdigits
      (.nil (.blank (by decide) .nil) (by simp)))
  faulty := ⟨rfl, by decide⟩

/-- The digits in front of the fault are read, and then the error tells where it stands. -/
theorem tokenize_eq_error_iff_split_at_sign :
    tokenize "f 007 @" = .error (.unexpectedChar '@' 64 ⟨0, 6⟩) ∧
      ∃ c₁ c₂ value, (Cursor.ofString "f 007 @").Reads [.identifier "f"] c₁ ∧
        c₁.readNext = (.ok (some (.integer value)), c₂) ∧ value.toInt = 7 ∧
        c₂.unread = [' ', '@'] := by
  have hname : Lexeme (.identifier "f") ['f'] := .identifier ⟨'f', [], rfl, by decide, by simp⟩
  have hwritten : WrittenBefore ("007".toList ++ [' ', '@']) none [.identifier "f"] "f ".toList :=
    .cons .nil (by simp) hname (.nil (.blank (by decide) .nil) (by simp))
  obtain ⟨hiff, -, -, -, hdigits⟩ :=
    tokenize_eq_error_iff_split "f 007 @" (.unexpectedChar '@' 64 ⟨0, 6⟩)
  exact ⟨hiff.2 ⟨atSignSplit, by decide⟩,
    hdigits "f ".toList "007".toList [' ', '@'] [.identifier "f"] (by decide) hwritten (by decide)
      (by simp) (by simp) (by decide)⟩

end HostedLisp
