import Mathlib.Data.List.Basic
import HostedLisp.Form.Place
import HostedLisp.Proofs.Token.Reads

/-!
# Tokens of a text that is cut off

A text may end where another text goes on. The tokens that end before that place are read in both,
since the end of a text never makes a lexeme shorter or longer. What comes next is a token of the
longer text that has begun or not: of a gap a gap is left, of a name a name, of digits digits of a
smaller value, and of a string literal a quote that no other quote closes.

## Main definitions

* `Cursor.append` — the same place in a text that goes on
* `Cursor.ending` — the end of the text

## Main results

* `front_of_cut_string`, `front_of_cut_name`, `front_of_cut_digits` — what is left of a lexeme
* `Cursor.readNext_of_append_token`, `Cursor.readNext_of_append_end`, `Cursor.readNext_cut` — one
  token, the end of the text, the token that the text ends in
* `Cursor.reads_tokensWithin` — the tokens that end before the place
* `Cursor.exists_common_of_reads` — the tokens of both texts
-/

namespace HostedLisp

/-! ### Gaps and lexemes that are cut -/

/-- A gap that is cut off is one at the end of a text. -/
theorem Gap.of_append {final : Bool} {s t : List Char} (h : Gap final (s ++ t)) : Gap true s := by
  generalize hgap : s ++ t = gap at h
  induction h generalizing s with
  | nil =>
    obtain ⟨rfl, -⟩ := List.append_eq_nil_iff.1 hgap
    exact .nil
  | @blank c gap hblank _ ih =>
    rcases List.append_eq_cons_iff.1 hgap with ⟨rfl, -⟩ | ⟨s, rfl, hrest⟩
    · exact .nil
    · exact .blank hblank (ih hrest.symm)
  | @comment text gap htext _ ih =>
    rcases List.append_eq_cons_iff.1 hgap with ⟨rfl, -⟩ | ⟨s, rfl, hrest⟩
    · exact .nil
    · -- The cut is in the text of the comment or behind its newline.
      rcases List.append_eq_append_iff.1 hrest with ⟨u, rfl, hbehind⟩ | ⟨u, rfl, -⟩
      · rcases List.cons_eq_append_iff.1 hbehind with ⟨rfl, -⟩ | ⟨u, rfl, hbehind⟩
        · rw [List.append_nil]
          exact .last rfl htext
        · exact .comment htext (ih (List.cons.inj hbehind).2.symm)
      · exact .last rfl fun hmem => htext (List.mem_append_left u hmem)
  | @last text _ htext =>
    rcases List.append_eq_cons_iff.1 hgap with ⟨rfl, -⟩ | ⟨s, rfl, rfl⟩
    · exact .nil
    · exact .last rfl fun hmem => htext (List.mem_append_left _ hmem)

variable {begun missing : List Char}

/-- A string literal that is cut has no closing quote. -/
theorem front_of_cut_string {content written : List Char} (body : StringBody content written)
    (h : begun ++ missing = '"' :: (written ++ ['"'])) (hbegun : begun ≠ [])
    (hmissing : missing ≠ []) : front begun = .unterminated := by
  obtain ⟨c, begun, rfl⟩ := List.exists_cons_of_ne_nil hbegun
  obtain ⟨rfl, hrest⟩ := List.cons.inj h
  rw [front_quote]
  match hscan : scanString ['"'] [] false begun with
  | none => rfl
  | some (l, t, rest) =>
    -- A quote before the cut would close the literal in the longer text too.
    exfalso
    obtain ⟨written', body', -, rfl⟩ := scanString_eq_some_iff.1 hscan
    have hearly := scanString_of_stringBody ['"'] [] body' (rest ++ missing)
    have hlate := scanString_of_stringBody ['"'] [] body []
    have hsame : written' ++ '"' :: (rest ++ missing) = written ++ ['"'] := by simpa using hrest
    rw [hsame, hlate] at hearly
    have hempty : [] = rest ++ missing := congrArg (·.2.2) (Option.some.inj hearly)
    exact hmissing (List.append_eq_nil_iff.1 hempty.symm).2

theorem front_of_last_lexeme {t : Token} {lexeme : List Char} (h : Lexeme t lexeme) :
    front lexeme = .token t lexeme [] := by
  have hfront : front (lexeme ++ []) = .token t lexeme [] := front_of_lexeme h (by simp)
  rwa [List.append_nil] at hfront

/-- Of a name that is cut a name is left. -/
theorem front_of_cut_name {name : String} (isName : IsName name)
    (h : begun ++ missing = name.toList) (hbegun : begun ≠ []) :
    front begun = .token (.identifier (String.ofList begun)) begun [] := by
  obtain ⟨c, begun, rfl⟩ := List.exists_cons_of_ne_nil hbegun
  obtain ⟨d, ds, hname, hd, hds⟩ := isName
  rw [hname] at h
  obtain ⟨rfl, rfl⟩ := List.cons.inj h
  have hleft : IsName (String.ofList (c :: begun)) :=
    ⟨c, begun, String.toList_ofList, hd, fun e he => hds e (List.mem_append_left _ he)⟩
  have hfront := front_of_last_lexeme (.identifier hleft)
  rwa [String.toList_ofList] at hfront

/-- Of digits that are cut digits are left, of a value that is not larger. -/
theorem front_of_cut_digits {digits : List Char} (all : ∀ c ∈ digits, c.isDigit)
    (bound : digitsValue digits < integerBound) (h : begun ++ missing = digits)
    (hbegun : begun ≠ []) : ∃ value, front begun = .token (.integer value) begun [] := by
  subst h
  have hleft : ∀ d ∈ begun, d.isDigit := fun d hd => all d (List.mem_append_left _ hd)
  have hvalue : digitsValue begun < integerBound := by
    refine Nat.lt_of_le_of_lt ?_ bound
    rw [digitsValue, digitsValue, List.foldl_append]
    exact le_foldl_digits _ missing
  exact ⟨_, front_of_last_lexeme (.integer hbegun hleft hvalue)⟩

/-- What reading answers where the lexeme of a token has begun with `begun`, which stands at
`start`, and is not there in full. A parenthesis is there in full or not at all. -/
def Token.Remnant (start : Position) (begun : List Char) :
    Token → Except LexError (Option Token) → Prop
  | .integer _, answer => ∃ value, answer = .ok (some (.integer value))
  | .string _, answer => answer = .error (.unterminatedString start)
  | .identifier _, answer => answer = .ok (some (.identifier (String.ofList begun)))
  | .opening, _ | .closing, _ => False

/-- Whether a token is a parenthesis. -/
def Token.isParenthesis : Token → Bool
  | .opening | .closing => true
  | _ => false

namespace Cursor

/-- The same place in a text that goes on with `more`. -/
def append (more : List Char) (c : Cursor) : Cursor := { c with unread := c.unread ++ more }

@[simp] theorem offset_append (c : Cursor) (more : List Char) :
    (c.append more).offset = c.offset := rfl

theorem ofString_append (s t : String) : ofString (s ++ t) = (ofString s).append t.toList := by
  rw [ofString, String.toList_append]
  rfl

/-- The end of the text. -/
def ending (c : Cursor) : Cursor := c.advance c.unread []

variable {c c₁ c₂ : Cursor} {t : Token} {ts us : List Token} {more : List Char}

theorem ending_of_leads (h : c.Leads c₁) : c₁.ending = c.ending := by
  obtain ⟨taken, rest, happend, rfl⟩ := h
  rw [ending, ending, advance_advance, unread_advance, happend]

/-- Offsets are counted up to the same end from every place. -/
theorem offset_ending (c : Cursor) : c.ending.offset = c.offset + c.unread.length := rfl

theorem readNext_ending (c : Cursor) : c.ending.readNext = (.ok none, c.ending) :=
  readNext_eq_end_iff.2 ⟨.nil, rfl⟩

/-! ### One token -/

/-- **A token that ends before the end of a text** is read whatever follows. -/
theorem readNext_of_append_token (h : (c.append more).readNext = (.ok (some t), c₂))
    (hle : c₂.offset ≤ c.ending.offset) :
    ∃ c₁, c.readNext = (.ok (some t), c₁) ∧ c₂ = c₁.append more := by
  obtain ⟨gap, lexeme, rest, hgap, hlexeme, happend, hrest, rfl⟩ := readNext_eq_token_iff.1 h
  have hlength : (gap ++ lexeme).length ≤ c.unread.length := Nat.le_of_add_le_add_left hle
  obtain ⟨behind, hbehind⟩ : gap ++ lexeme <+: c.unread :=
    List.prefix_of_prefix_length_le ⟨rest, happend⟩ ⟨more, rfl⟩ hlength
  obtain rfl : rest = behind ++ more := by
    have hboth : gap ++ lexeme ++ rest = gap ++ lexeme ++ (behind ++ more) := by
      rw [happend, ← List.append_assoc, hbehind]
      rfl
    exact List.append_cancel_left hboth
  refine ⟨_, readNext_eq_token_iff.2 ⟨gap, lexeme, behind, hgap, hlexeme, hbehind, ?_, rfl⟩, rfl⟩
  intro d hd
  refine hrest d ?_
  rw [List.head?_append, Option.mem_def.1 hd]
  rfl

/-- **Where the longer text has no token left**, the text has none. -/
theorem readNext_of_append_end (h : (c.append more).readNext = (.ok none, c₂)) :
    c.readNext = (.ok none, c.ending) := by
  obtain ⟨hgap, -⟩ := readNext_eq_end_iff.1 h
  exact readNext_eq_end_iff.2 ⟨hgap.of_append, rfl⟩

/-- A gap ends where a lexeme begins, also one that is not there in full. -/
theorem skipGap_of_lexeme {gap lexeme behind : List Char} (hgap : Gap false gap)
    (hlexeme : Lexeme t lexeme) (hbehind : behind.head? = lexeme.head?)
    (h : c.unread = gap ++ behind) : c.skipGap = c.advance gap behind := by
  obtain ⟨d, ds, rfl, hd⟩ := hlexeme.exists_cons
  obtain ⟨ds', rfl⟩ := List.head?_eq_some_iff.1 hbehind
  have hcut : splitGap c.unread = (gap, d :: ds') :=
    splitGap_eq_iff.2 ⟨h.symm, hgap, noLeadingGap_cons.2 (not_startsGap_of_beginsWith hd)⟩
  rw [skipGap, hcut]

/-- A lexeme that the text ends in is read as what is left of it. -/
theorem readNext_of_cut_lexeme {gap begun missing : List Char} (hgap : Gap false gap)
    (hlexeme : Lexeme t (begun ++ missing)) (hbegun : begun ≠ []) (hmissing : missing ≠ [])
    (h : c.unread = gap ++ begun) :
    ∃ answer, c.readNext = (answer, c.ending) ∧ t.Remnant (c.pos.after gap) begun answer := by
  have hskip : c.skipGap = c.advance gap begun :=
    skipGap_of_lexeme hgap hlexeme (List.head?_append_of_ne_nil _ hbegun).symm h
  have hending : c.ending = (c.advance gap begun).advance begun [] := by
    rw [ending, h, advance_advance]
  rw [hending, readNext, hskip, unread_advance]
  generalize hwhole : begun ++ missing = lexeme at hlexeme
  cases hlexeme with
  | integer nonempty all bound =>
    obtain ⟨value, hfront⟩ := front_of_cut_digits all bound hwhole hbegun
    rw [hfront]
    exact ⟨_, rfl, value, rfl⟩
  | string body =>
    rw [front_of_cut_string body hwhole hbegun hmissing]
    exact ⟨_, rfl, rfl⟩
  | identifier isName =>
    rw [front_of_cut_name isName hwhole hbegun]
    exact ⟨_, rfl, rfl⟩
  | opening | closing =>
    obtain ⟨d, begun, rfl⟩ := List.exists_cons_of_ne_nil hbegun
    exact absurd (List.append_eq_nil_iff.1 (List.cons.inj hwhole).2).2 hmissing

/-- **A token that the text ends in** has not begun, or is there in part. -/
theorem readNext_cut (h : (c.append more).readNext = (.ok (some t), c₂))
    (hlt : c.ending.offset < c₂.offset) :
    let begun := (c.append more).begun c.ending.offset
    (begun = [] ∧ c.readNext = (.ok none, c.ending)) ∨
      begun ≠ [] ∧ ∃ answer, c.readNext = (answer, c.ending) ∧
        t.Remnant (c.append more).skipGap.pos begun answer := by
  obtain ⟨gap, lexeme, rest, hgap, hlexeme, happend, -, rfl⟩ := readNext_eq_token_iff.1 h
  have hlength : c.unread.length < (gap ++ lexeme).length := Nat.lt_of_add_lt_add_left hlt
  have hne : lexeme ≠ [] := by
    obtain ⟨d, ds, rfl, -⟩ := hlexeme.exists_cons
    simp
  rw [List.append_assoc] at happend
  have hskip : (c.append more).skipGap = (c.append more).advance gap (lexeme ++ rest) :=
    skipGap_of_lexeme hgap hlexeme (List.head?_append_of_ne_nil _ hne) happend.symm
  rw [begun, hskip]
  dsimp only [unread_advance, offset_advance, pos_advance]
  by_cases hle : c.unread.length ≤ gap.length
  · -- The text ends in the gap or with it.
    obtain ⟨gap', rfl⟩ : c.unread <+: gap :=
      List.prefix_of_prefix_length_le ⟨more, rfl⟩ ⟨_, happend⟩ hle
    refine .inl ⟨?_, readNext_eq_end_iff.2 ⟨hgap.of_append, rfl⟩⟩
    rw [offset_append, offset_ending, Nat.sub_eq_zero_of_le (Nat.add_le_add_left hle _),
      List.take_zero]
  · obtain ⟨begun, hbegun⟩ : gap <+: c.unread :=
      List.prefix_of_prefix_length_le ⟨_, happend⟩ ⟨more, rfl⟩ (by omega)
    obtain ⟨missing, rfl⟩ : begun <+: lexeme := by
      have hprefix : c.unread <+: gap ++ lexeme :=
        List.prefix_of_prefix_length_le ⟨more, rfl⟩ ⟨rest, by rw [List.append_assoc, happend]; rfl⟩
          (Nat.le_of_lt hlength)
      rwa [← hbegun, List.prefix_append_right_inj] at hprefix
    have hcount : c.unread.length = gap.length + begun.length := by
      rw [← hbegun, List.length_append]
    have hne : begun ≠ [] := by
      rintro rfl
      simp at hcount
      omega
    have hmissing : missing ≠ [] := by
      rintro rfl
      simp at hlength
      omega
    have hoffset : c.ending.offset - ((c.append more).offset + gap.length) = begun.length := by
      rw [offset_ending, offset_append, hcount]
      omega
    rw [hoffset, List.append_assoc, List.take_left]
    exact .inr ⟨hne, readNext_of_cut_lexeme hgap hlexeme hne hmissing hbegun.symm⟩

/-! ### Many tokens -/

theorem tokensWithin_of_token {n : Nat} (h : c.readNext = (.ok (some t), c₁)) :
    c.tokensWithin n = if c₁.offset ≤ n
      then (t :: (c₁.tokensWithin n).1, (c₁.tokensWithin n).2) else ([], c) := by
  rw [tokensWithin]
  split
  · next t' c' hnext =>
    rw [h] at hnext
    cases hnext
    rfl
  · next hnext => exact absurd h (hnext t c₁)

theorem tokensWithin_of_no_token {n : Nat} (h : ∀ t, c.readNext.1 ≠ .ok (some t)) :
    c.tokensWithin n = ([], c) := by
  rw [tokensWithin]
  split
  · next t c' hnext => exact absurd (congrArg Prod.fst hnext) (h t)
  · rfl

/-- **The tokens that end within a text** are read in it as in the longer text, and the longer text
has no other token that ends in it. -/
theorem reads_tokensWithin (more : List Char) (c : Cursor) :
    ∃ ts c₁, (c.append more).tokensWithin c.ending.offset = (ts, c₁.append more) ∧
      c.Reads ts c₁ ∧ (c.append more).Reads ts (c₁.append more) ∧
      ∀ t c₂, (c₁.append more).readNext = (.ok (some t), c₂) → c₁.ending.offset < c₂.offset := by
  by_cases htoken : ∃ t c₂, (c.append more).readNext = (.ok (some t), c₂) ∧
      c₂.offset ≤ c.ending.offset
  · obtain ⟨t, c₂, hnext, hle⟩ := htoken
    obtain ⟨c', hfirst, rfl⟩ := readNext_of_append_token hnext hle
    have hless : c'.unread.length < c.unread.length := length_readNext_lt hfirst
    have hending : c'.ending = c.ending := ending_of_leads (leads_of_readNext hfirst)
    obtain ⟨ts, c₁, hwithin, hreads, hreads', hlast⟩ := reads_tokensWithin more c'
    refine ⟨t :: ts, c₁, ?_, .cons hfirst hreads, .cons hnext hreads', hlast⟩
    rw [tokensWithin_of_token hnext, if_pos hle, ← hending, hwithin]
  · refine ⟨[], c, ?_, .nil, .nil, fun t c₂ hnext => ?_⟩
    · by_cases hsome : ∃ t, (c.append more).readNext.1 = .ok (some t)
      · obtain ⟨t, ht⟩ := hsome
        have hnext : (c.append more).readNext = (.ok (some t), (c.append more).readNext.2) :=
          Prod.ext ht rfl
        rw [tokensWithin_of_token hnext, if_neg fun hle => htoken ⟨t, _, hnext, hle⟩]
      · exact tokensWithin_of_no_token fun t ht => hsome ⟨t, ht⟩
    · exact Nat.lt_of_not_le fun hle => htoken ⟨t, c₂, hnext, hle⟩
termination_by c.unread.length

/-- Reading up to the end of a text goes through every place that reading it reaches. -/
theorem exists_reads_of_reads {ts vs : List Token} {c₁ c₂ c₃ : Cursor} (h : c.Reads ts c₁)
    (hall : c.Reads vs c₂) (hend : c₂.readNext = (.ok none, c₃)) :
    ∃ us, vs = ts ++ us ∧ c₁.Reads us c₂ := by
  induction h generalizing vs with
  | nil => exact ⟨vs, rfl, hall⟩
  | cons first _ ih =>
    cases hall with
    | nil =>
      rw [first] at hend
      cases hend
    | cons first' others =>
      rw [first] at first'
      cases first'
      obtain ⟨us, rfl, hus⟩ := ih others
      exact ⟨us, rfl, hus⟩

theorem eq_nil_of_reads_ending {d : Cursor} (h : d.ending.Reads ts c₁) : ts = [] := by
  cases h with
  | nil => rfl
  | cons first _ =>
    rw [readNext_ending] at first
    cases first

/-- **The tokens of a text and of a longer one agree** but for the last token of the text, which may
go on in the longer one. No parenthesis goes on. -/
theorem exists_common_of_reads {vs : List Token} {d₁ d₂ : Cursor} (hts : c.Reads ts c₁)
    (hend : c₁.readNext = (.ok none, c₂)) (hvs : (c.append more).Reads vs d₁)
    (hend' : d₁.readNext = (.ok none, d₂)) :
    ∃ common last others, ts = common ++ last ∧ vs = common ++ others ∧
      (last = [] ∨ ∃ t : Token, t.isParenthesis = false ∧ last = [t]) := by
  obtain ⟨common, d, -, hcommon, hcommon', hbeyond⟩ := reads_tokensWithin more c
  obtain ⟨last, rfl, hlast⟩ := exists_reads_of_reads hcommon hts hend
  obtain ⟨others, rfl, hothers⟩ := exists_reads_of_reads hcommon' hvs hend'
  refine ⟨common, last, others, rfl, rfl, ?_⟩
  cases hlast with
  | nil => exact .inl rfl
  | @cons _ d' _ t last first behind =>
    -- The text has a token more, so the longer text has one there too.
    cases others with
    | nil =>
      obtain rfl := reads_nil_iff.1 hothers
      rw [readNext_of_append_end hend'] at first
      cases first
    | cons u others =>
      obtain ⟨d'', hnext, -⟩ := reads_cons_iff.1 hothers
      rcases readNext_cut hnext (hbeyond u d'' hnext) with
        ⟨-, hnone⟩ | ⟨-, answer, hanswer, hremnant⟩
      · rw [hnone] at first
        cases first
      · obtain ⟨htoken, rfl⟩ := Prod.mk.inj (hanswer.symm.trans first)
        subst htoken
        obtain rfl := eq_nil_of_reads_ending behind
        refine .inr ⟨t, ?_, rfl⟩
        cases u with
        | integer _ =>
          obtain ⟨value, hvalue⟩ := hremnant
          cases hvalue
          rfl
        | identifier _ =>
          cases hremnant
          rfl
        | string _ => cases hremnant
        | opening | closing => exact hremnant.elim

end Cursor

end HostedLisp
