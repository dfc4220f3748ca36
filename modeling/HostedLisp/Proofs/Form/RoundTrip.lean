import HostedLisp.Expr.Print
import HostedLisp.Proofs.Form.Grammar
import HostedLisp.Proofs.Token.Rendering

/-!
# Printed expressions are read back

The printed form of an expression is a way to write its tokens whenever they can be written at all:
an integer with a sign and a name that is no name have no lexeme, every other token has one. An
expression is therefore read back from its printed form exactly if all its tokens can be written and
none of its names is the name of a truth value.

What is printed is put together from the right to the left. Behind the printed form of an atom comes
a blank, a closing parenthesis or nothing, none of which makes a lexeme longer.

## Main definitions

* `Token.Writable` — the token has a lexeme
* `StartsApart` — the start of a text belongs to no lexeme in front of it

## Main results

* `Expr.canonical_iff` — the canonical expressions in terms of their tokens
* `written_render` — a printed expression is a way to write its tokens
* `parseExpr_toString_eq_ok_iff` — an expression is read back exactly if it is canonical
-/

namespace HostedLisp

open HostedLisp.Expr

variable {t : Token} {ts : List Token} {text : List Char} {e : Expr}

/-! ### Tokens that can be written -/

/-- Integers without a sign and names can be written, and so can all other tokens. -/
def Token.Writable : Token → Prop
  | .integer value => 0 ≤ value.toInt
  | .identifier name => IsName name
  | _ => True

/-- What is written can be written: digits have no sign, and a name is written as itself. -/
theorem Lexeme.writable {lexeme : List Char} (h : Lexeme t lexeme) : t.Writable := by
  cases h with
  | integer _ _ bound =>
    rw [Token.Writable, Int64.toInt_ofNat_of_lt bound]
    exact Int.natCast_nonneg _
  | identifier isName => exact isName
  | string _ | opening | closing => trivial

theorem writable_of_written (h : Written ts text) : ∀ t ∈ ts, t.Writable := by
  induction ts generalizing text with
  | nil => simp
  | cons t ts ih =>
    obtain ⟨_, _, _, _, hlexeme, _, _, others⟩ := written_cons_iff.1 h
    exact List.forall_mem_cons.2 ⟨hlexeme.writable, ih others⟩

theorem isName_boolName (b : Bool) : IsName (boolName b) := by
  cases b
  · exact ⟨'f', ['a', 'l', 's', 'e'], rfl, by decide, List.all_eq_true.1 (by decide)⟩
  · exact ⟨'t', ['r', 'u', 'e'], rfl, by decide, List.all_eq_true.1 (by decide)⟩

theorem forall_mem_tokensAll {p : Token → Prop} {es : List Expr} :
    (∀ t ∈ tokensAll es, p t) ↔ ∀ e ∈ es, ∀ t ∈ e.tokens, p t := by
  induction es with
  | nil => simp [tokensAll]
  | cons e es ih => rw [tokensAll, List.forall_mem_append, ih, List.forall_mem_cons]

/-- The tokens of a call can be written if its head is a name and those of its arguments can. -/
theorem writable_call_iff {function : String} {arguments : List Expr} :
    (∀ t ∈ (call function arguments).tokens, t.Writable) ↔
      IsName function ∧ ∀ e ∈ arguments, ∀ t ∈ e.tokens, t.Writable := by
  simp [Expr.tokens, Token.Writable, ← forall_mem_tokensAll, or_imp, forall_and]

/-- **The canonical expressions** are those that can be written and keep the names of the truth
values free. -/
theorem Expr.canonical_iff (e : Expr) : e.Canonical ↔ (∀ t ∈ e.tokens, t.Writable) ∧ e.Plain := by
  induction e with
  | atom a =>
    cases a <;> simp [Canonical, Plain, Every, Expr.tokens, Atom.token, Token.Writable,
      isName_boolName]
  | call function arguments ih =>
    rw [writable_call_iff, Canonical, every_call_iff, Plain, every_call_iff, and_and_and_comm]
    refine and_congr_right fun _ => (forall₂_congr ih).trans ?_
    simp only [imp_and, forall_and, Plain]

/-! ### Printed atoms -/

theorem lexeme_integer {value : Int64} (h : 0 ≤ value.toInt) :
    Lexeme (.integer value) (toString value.toInt).toList := by
  obtain ⟨n, hn⟩ := Int.eq_ofNat_of_zero_le h
  have hbound : n < integerBound := by
    have := value.toInt_lt
    rw [integerBound]
    omega
  have hvalue : digitsValue (Nat.toDigits 10 n) = n := by
    rw [digitsValue, ← Nat.ofDigitChars_eq_foldl, Nat.ofDigitChars_ten_toDigits]
  have hdigits : ∀ c ∈ Nat.toDigits 10 n, c.isDigit := fun c hc =>
    Nat.isDigit_of_mem_toDigits (by decide) (by decide) hc
  have hlexeme := Lexeme.integer Nat.toDigits_ne_nil hdigits (by rwa [hvalue])
  have hint : Int64.ofNat n = value := by
    rw [← Int64.toInt_inj, Int64.toInt_ofNat_of_lt hbound, hn]
  rw [hvalue, hint] at hlexeme
  rwa [hn, Int.toString_eq_repr, Int.repr_eq_if, if_pos (Int.natCast_nonneg n), Int.toNat_natCast,
    Nat.toList_repr]

theorem stringBody_escape (cs : List Char) : StringBody cs (Quoted.escape cs) := by
  induction cs with
  | nil => exact .nil
  | cons c cs ih =>
    rw [Quoted.escape, List.flatMap_cons, Quoted.escapeChar]
    split
    · exact .escaped ih
    · next h =>
      obtain ⟨hquote, hslash⟩ : c ≠ '"' ∧ c ≠ '\\' := by simpa [Quoted.needsEscape] using h
      exact .plain hquote hslash ih

/-- The printed form of an atom is a lexeme of its token, if there is one. -/
theorem lexeme_render {a : Atom} (h : a.token.Writable) : Lexeme a.token a.render.toList := by
  cases a with
  | integer value => exact lexeme_integer h
  | string content =>
    have hlexeme := Lexeme.string (stringBody_escape content.toList)
    rw [String.ofList_toList] at hlexeme
    rwa [Atom.render, quote, String.toList_ofList]
  | bool b => exact .identifier (isName_boolName b)
  | var name => exact .identifier h

/-! ### Printed expressions -/

/-- The first character of a text is no character of names, so it is no digit either. -/
def StartsApart (text : List Char) : Prop := ∀ c ∈ text.head?, continuesName c = false

theorem StartsApart.not_goesOnWith (h : StartsApart text) (t : Token) :
    ∀ c ∈ text.head?, t.goesOnWith c = false :=
  fun c hc => goesOnWith_of_not_continuesName (h c hc) t

theorem startsApart_renderAll (h : StartsApart text) (es : List Expr) :
    StartsApart ((renderAll es).toList ++ text) := by
  cases es with
  | nil => simpa [renderAll] using h
  | cons e es =>
    intro c hc
    obtain rfl : ' ' = c := by simpa [renderAll] using hc
    decide

theorem written_of_lexeme {lexeme : List Char} (hlexeme : Lexeme t lexeme)
    (hapart : ∀ c ∈ text.head?, t.goesOnWith c = false) (h : Written ts text) :
    Written (t :: ts) (lexeme ++ text) :=
  written_cons_iff.2 ⟨[], lexeme, text, .nil, hlexeme, rfl, hapart, h⟩

/-- A gap in front of written tokens makes the gap longer that they begin with. -/
theorem written_gap {gap : List Char} (hgap : Gap false gap) (h : Written ts text) :
    Written ts (gap ++ text) := by
  cases h with
  | nil isGap => exact .nil (hgap.append isGap)
  | cons isGap _ isLexeme rest =>
    rw [List.append_assoc, ← List.append_assoc, ← List.append_assoc]
    exact .cons (hgap.append isGap) (by simp) isLexeme rest

mutual

/-- **A printed expression is a way to write its tokens**, in front of any text that starts
apart. -/
theorem written_render : {ts : List Token} → {text : List Char} → (e : Expr) →
    (∀ t ∈ e.tokens, t.Writable) → Written ts text → StartsApart text →
      Written (e.tokens ++ ts) (e.render.toList ++ text)
  | _, _, .atom a, hwritable, hwritten, hapart => by
    have hatom : a.token.Writable := hwritable a.token List.mem_cons_self
    exact written_of_lexeme (lexeme_render hatom) (hapart.not_goesOnWith a.token) hwritten
  | _, text, .call function arguments, hwritable, hwritten, hapart => by
    obtain ⟨hname, harguments⟩ := writable_call_iff.1 hwritable
    have hclose : StartsApart (')' :: text) := by
      rintro c ⟨⟩
      decide
    -- From the right to the left, each part is written in front of those behind it.
    have closing := written_of_lexeme .closing (fun _ _ => rfl) hwritten
    have parts := written_renderAll arguments harguments closing hclose
    have head := written_of_lexeme (.identifier hname)
      ((startsApart_renderAll hclose arguments).not_goesOnWith _) parts
    have opening := written_of_lexeme .opening (fun _ _ => rfl) head
    simpa [Expr.tokens, render] using opening

/-- Printed arguments are a way to write their tokens. -/
theorem written_renderAll : {ts : List Token} → {text : List Char} → (es : List Expr) →
    (∀ e ∈ es, ∀ t ∈ e.tokens, t.Writable) → Written ts text → StartsApart text →
      Written (tokensAll es ++ ts) ((renderAll es).toList ++ text)
  | _, _, [], _, hwritten, _ => hwritten
  | _, _, e :: es, hwritable, hwritten, hapart => by
    obtain ⟨hfirst, hothers⟩ := List.forall_mem_cons.1 hwritable
    have others := written_renderAll es hothers hwritten hapart
    have first := written_render e hfirst others (startsApart_renderAll hapart es)
    simpa [tokensAll, renderAll] using written_gap (.blank (c := ' ') rfl .nil) first

end

theorem written_toString (h : ∀ t ∈ e.tokens, t.Writable) :
    Written e.tokens (toString e).toList := by
  have hwritten := written_render e h (.nil .nil) (by simp [StartsApart])
  rw [List.append_nil, List.append_nil, ← toString_eq] at hwritten
  exact hwritten

/-- **An expression is read back from its printed form exactly if it is canonical.** -/
theorem parseExpr_toString_eq_ok_iff :
    parseExpr (toString e) = .ok e ↔ e.Canonical := by
  rw [parseExpr, Cursor.answer_readOnlyForm_eq_ok_iff, ← written_iff_reads, canonical_iff]
  exact and_congr_left fun _ => ⟨writable_of_written, written_toString⟩

end HostedLisp
