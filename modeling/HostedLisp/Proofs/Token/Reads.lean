import HostedLisp.Proofs.Token.Gap
import HostedLisp.Proofs.Token.Lexeme

/-!
# Reading token by token

`Cursor.readNext` moves a cursor behind a gap and a lexeme, or behind a final gap, and these are the
only ways in which it gives a token or reports the end of the text.

Everything that reads more than one token pulls them through a cursor one after the other.
`Cursor.Reads` is the relation between the cursor before, the tokens pulled, and the cursor behind;
what reads a text by pulling tokens is described through it, without a word on characters.

Whatever the answer is, the cursor is moved by some characters that stand at the front of the unread
text. `Cursor.Leads` says this of any two cursors.

## Main definitions

* `Cursor.Leads` — one cursor is another one behind some characters more
* `Cursor.Reads` — some tokens can be pulled through a cursor one after the other

## Main results

* `Cursor.readNext_eq_token_iff`, `Cursor.readNext_eq_end_iff` — when a token is read, when the end
* `Cursor.leads_readNext` — reading a token consumes characters from the front
* `Cursor.exists_reads` — reading goes on up to the end of the text or an error
* `Cursor.result_readAll_eq_ok_iff` — reading all tokens is pulling them up to the end
-/

namespace HostedLisp

namespace Cursor

variable {c c₁ c₂ c₃ : Cursor} {t : Token} {ts us : List Token}

/-! ### One token -/

/-- **A token is read behind a gap**, as a lexeme that what follows does not make longer. -/
theorem readNext_eq_token_iff :
    c.readNext = (.ok (some t), c₁) ↔
      ∃ gap lexeme rest, Gap false gap ∧ Lexeme t lexeme ∧ gap ++ lexeme ++ rest = c.unread ∧
        (∀ d ∈ rest.head?, t.goesOnWith d = false) ∧ c₁ = c.advance (gap ++ lexeme) rest := by
  obtain ⟨gap, behind, hcut⟩ : ∃ gap behind, splitGap c.unread = (gap, behind) := ⟨_, _, rfl⟩
  constructor
  · intro h
    obtain ⟨happend, hgap, -⟩ := splitGap_eq_iff.1 hcut
    simp only [readNext, skipGap, hcut, unread_advance] at h
    split at h <;> cases h
    next lexeme rest hfront =>
      obtain ⟨hlexeme, rfl, hrest⟩ := front_eq_token_iff.1 hfront
      have hne : (lexeme ++ rest).isEmpty = false := by
        obtain ⟨d, ds, rfl, -⟩ := hlexeme.exists_cons
        rfl
      rw [hne] at hgap
      exact ⟨gap, lexeme, rest, hgap, hlexeme, by rw [List.append_assoc, happend], hrest,
        advance_advance ..⟩
  · rintro ⟨gap, lexeme, rest, hgap, hlexeme, happend, hrest, rfl⟩
    have hcut : splitGap c.unread = (gap, lexeme ++ rest) := by
      refine splitGap_eq_iff.2 ⟨by rw [← List.append_assoc, happend], ?_⟩
      obtain ⟨d, ds, rfl, hd⟩ := hlexeme.exists_cons
      exact ⟨hgap, noLeadingGap_cons.2 (not_startsGap_of_beginsWith hd)⟩
    simp only [readNext, skipGap, hcut, unread_advance, front_of_lexeme hlexeme hrest,
      advance_advance]

/-- **The end is met behind a final gap.** -/
theorem readNext_eq_end_iff :
    c.readNext = (.ok none, c₁) ↔ Gap true c.unread ∧ c₁ = c.advance c.unread [] := by
  obtain ⟨gap, behind, hcut⟩ : ∃ gap behind, splitGap c.unread = (gap, behind) := ⟨_, _, rfl⟩
  obtain ⟨happend, hgap, -⟩ := splitGap_eq_iff.1 hcut
  constructor
  · intro h
    simp only [readNext, skipGap, hcut, unread_advance] at h
    split at h <;> cases h
    next hfront =>
      obtain rfl : behind = [] := front_eq_nothing_iff.1 hfront
      rw [List.append_nil] at happend
      subst happend
      exact ⟨hgap, rfl⟩
  · rintro ⟨hgap, rfl⟩
    have hcut : splitGap c.unread = (c.unread, []) :=
      splitGap_eq_iff.2 ⟨List.append_nil _, hgap, by simp [NoLeadingGap]⟩
    simp only [readNext, skipGap, hcut, unread_advance, front]

/-! ### What is consumed -/

/-- Consuming some characters from the front of its text leads from `c` to `c₁`. -/
def Leads (c c₁ : Cursor) : Prop :=
  ∃ taken rest, taken ++ rest = c.unread ∧ c₁ = c.advance taken rest

theorem Leads.refl (c : Cursor) : c.Leads c := ⟨[], c.unread, rfl, rfl⟩

theorem Leads.trans (h₁ : c.Leads c₁) (h₂ : c₁.Leads c₂) : c.Leads c₂ := by
  obtain ⟨s, rest, hs, rfl⟩ := h₁
  obtain ⟨t, rest', rfl, rfl⟩ := h₂
  exact ⟨s ++ t, rest', by rw [List.append_assoc]; exact hs, advance_advance ..⟩

theorem leads_skipGap (c : Cursor) : c.Leads c.skipGap := ⟨_, _, splitGap_append _, rfl⟩

/-- **Reading a token consumes characters from the front**, also where there is none. -/
theorem leads_readNext (c : Cursor) : c.Leads c.readNext.2 := by
  refine c.leads_skipGap.trans ?_
  rw [readNext]
  split
  · exact .refl _
  · next hfront => exact ⟨_, _, append_of_front_token hfront, rfl⟩
  · next hfront => exact ⟨_, _, append_of_front_overflow hfront, rfl⟩
  · exact ⟨_, [], List.append_nil _, rfl⟩
  · exact .refl _

theorem leads_of_readNext {answer : Except LexError (Option Token)}
    (h : c.readNext = (answer, c₁)) : c.Leads c₁ := by
  have hleads := c.leads_readNext
  rwa [h] at hleads

/-! ### Some tokens -/

/-- Pulling the tokens of a list one after the other leads from one cursor to another. -/
inductive Reads : Cursor → List Token → Cursor → Prop where
  /-- Without any tokens the cursor stays where it is. -/
  | nil {c : Cursor} : Reads c [] c
  /-- A token and then the others. -/
  | cons {c c₁ c₂ : Cursor} {t : Token} {ts : List Token} (first : c.readNext = (.ok (some t), c₁))
      (others : Reads c₁ ts c₂) : Reads c (t :: ts) c₂

@[simp] theorem reads_nil_iff : c.Reads [] c₁ ↔ c₁ = c := by
  constructor
  · intro h
    cases h
    rfl
  · rintro rfl
    exact .nil

theorem reads_cons_iff :
    c.Reads (t :: ts) c₂ ↔ ∃ c₁, c.readNext = (.ok (some t), c₁) ∧ c₁.Reads ts c₂ := by
  constructor
  · intro h
    cases h with
    | cons first others => exact ⟨_, first, others⟩
  · rintro ⟨c₁, first, others⟩
    exact .cons first others

theorem reads_append_iff :
    c.Reads (ts ++ us) c₂ ↔ ∃ c₁, c.Reads ts c₁ ∧ c₁.Reads us c₂ := by
  induction ts generalizing c with
  | nil => simp
  | cons t ts ih =>
    simp only [List.cons_append, reads_cons_iff, ih]
    constructor
    · rintro ⟨c', first, c₁, hts, hus⟩
      exact ⟨c₁, ⟨c', first, hts⟩, hus⟩
    · rintro ⟨c₁, ⟨c', first, hts⟩, hus⟩
      exact ⟨c', first, c₁, hts, hus⟩

theorem leads_of_reads (h : c.Reads ts c₁) : c.Leads c₁ := by
  induction h with
  | nil => exact .refl _
  | cons first _ ih => exact (leads_of_readNext first).trans ih

/-- Pulling goes on until there is no further token, since every token leaves less to read. -/
theorem exists_reads (c : Cursor) :
    ∃ ts c₁, c.Reads ts c₁ ∧ ∀ t, c₁.readNext.1 ≠ .ok (some t) := by
  by_cases h : ∃ t, c.readNext.1 = .ok (some t)
  · obtain ⟨t, ht⟩ := h
    have hread : c.readNext = (.ok (some t), c.readNext.2) := Prod.ext ht rfl
    have hless : c.readNext.2.unread.length < c.unread.length := length_readNext_lt hread
    obtain ⟨ts, c₁, hts, hend⟩ := exists_reads c.readNext.2
    exact ⟨t :: ts, c₁, .cons hread hts, hend⟩
  · exact ⟨[], c, .nil, fun t ht => h ⟨t, ht⟩⟩
termination_by c.unread.length

/-! ### All tokens -/

theorem readOnto_eq (c : Cursor) (read : Array Token) :
    c.readOnto read = match c.readNext with
      | (.error e, c₁) => ⟨read.toList, some e, c₁⟩
      | (.ok none, c₁) => ⟨read.toList, none, c₁⟩
      | (.ok (some t), c₁) => c₁.readOnto (read.push t) := by
  rw [readOnto]
  split <;> rename_i heq <;> rw [heq]

theorem readOnto_of_reads (h : c.Reads ts c₁) (read : Array Token) :
    c.readOnto read = c₁.readOnto (read ++ ts.toArray) := by
  induction h generalizing read with
  | nil => simp
  | cons first _ ih =>
    rw [readOnto_eq, first]
    simp [ih]

/-- The loop over tokens adds those that it carries to what is read from its cursor. -/
theorem readOnto_eq_readAll (c : Cursor) (read : Array Token) :
    c.readOnto read = { c.readAll with tokens := read.toList ++ c.readAll.tokens } := by
  obtain ⟨ts, c₁, hreads, hend⟩ := exists_reads c
  rw [readAll, readOnto_of_reads hreads, readOnto_of_reads hreads #[], readOnto_eq,
    readOnto_eq _ (#[] ++ ts.toArray)]
  match hnext : c₁.readNext with
  | (.ok (some t), _) => exact absurd (congrArg Prod.fst hnext) (hend t)
  | (.ok none, _) | (.error _, _) => simp

/-- **Reading all tokens is pulling them up to the end of the text.** -/
theorem result_readAll_eq_ok_iff :
    c.readAll.result = .ok ts ↔ ∃ c₁ c₂, c.Reads ts c₁ ∧ c₁.readNext = (.ok none, c₂) := by
  constructor
  · intro h
    -- The run pulls all tokens that there are, so its result is that of its last cursor.
    obtain ⟨us, c₁, hus, hend⟩ := exists_reads c
    obtain ⟨answer, c₂, hnext⟩ : ∃ answer c₂, c₁.readNext = (answer, c₂) := ⟨_, _, rfl⟩
    rw [readAll, readOnto_of_reads hus, readOnto_eq, hnext] at h
    match answer with
    | .ok (some t) => exact absurd (congrArg Prod.fst hnext) (hend t)
    | .ok none =>
      obtain rfl : us = ts := by simpa [TokenRun.result] using h
      exact ⟨c₁, c₂, hus, hnext⟩
    | .error e => cases h
  · rintro ⟨c₁, c₂, hts, hend⟩
    rw [readAll, readOnto_of_reads hts, readOnto_eq, hend]
    simp [TokenRun.result]

end Cursor

end HostedLisp
