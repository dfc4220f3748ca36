import Mathlib
import HostedLisp.Proofs.Form.RoundTrip
import HostedLisp.Form.Step

/-!
# Reading and printing again

Whatever reading builds is canonical: its tokens have been written, and no name of a truth value is
taken for another name. This holds of every tree that any step of reading answers, wherever the
reader is and whatever errors it has met before.

So the forms of a program can be printed again, one after the other, and are read back as the same
forms from the same tokens. All that has to stand between two of them is a gap that is not empty and
does not end in an open comment. How the program itself was written is of no influence: its
comments, its leading zeros and the escapes that it could have done without are gone.

## Main definitions

* `Answer.Builds` — the answer to a step of reading is a tree
* `PrintedApart` — some expressions are printed one after the other, with separators between them

## Main results

* `Lookahead.canonical_run` — all trees that are built by any steps from any place are canonical
* `written_printedApart` — printed expressions with separators are a way to write their tokens
* `reading_canonical_printing_stable` — both, and what is read from printed forms
-/

namespace HostedLisp

open HostedLisp.Expr

/-! ### What reading builds -/

/-- The answer to a step of reading is the tree `e`. -/
def Answer.Builds (e : Expr) : Answer → Prop
  | .item answer => answer = .ok (some (.expr e))
  | .call answer => answer = .ok e
  | .form answer => answer = .ok (some e)
  | _ => False

namespace Cursor

variable {c c₁ : Cursor} {e : Expr} {ts : List Token}

/-- Tokens that are read have been written. -/
theorem writable_of_reads (h : c.Reads ts c₁) : ∀ t ∈ ts, t.Writable := by
  induction h with
  | nil => simp
  | cons first _ ih =>
    obtain ⟨_, _, _, -, hlexeme, -⟩ := readNext_eq_token_iff.1 first
    exact List.forall_mem_cons.2 ⟨hlexeme.writable, ih⟩

theorem canonical_of_reads (h : c.Reads e.tokens c₁) (plain : e.Plain) : e.Canonical :=
  (canonical_iff e).2 ⟨writable_of_reads h, plain⟩

/-- The opening parenthesis of the call has not been read here, but it can always be written. -/
theorem canonical_of_readCall (h : c.readCall.answer = .ok e) : e.Canonical := by
  obtain ⟨ts, hreads, htokens, plain⟩ := reads_of_readInside OpenCalls.plain_start h
  refine (canonical_iff e).2 ⟨?_, plain⟩
  rw [htokens]
  exact List.forall_mem_cons.2 ⟨trivial, writable_of_reads hreads⟩

/-- **A step of reading builds canonical trees only**, from any place of any text. -/
theorem canonical_step {s : Step} (h : (c.step s).1.answer.Builds e) : e.Canonical := by
  cases s with
  | peek | next | atEnd | token => cases h
  | item =>
    obtain ⟨hreads, plain⟩ := reads_of_readItem h
    exact canonical_of_reads hreads plain
  | call => exact canonical_of_readCall h
  | form =>
    obtain ⟨hreads, plain⟩ := reads_of_readForm h
    exact canonical_of_reads hreads plain

end Cursor

namespace Lookahead

/-- A reader with a slot builds what is built from its place. -/
theorem canonical_step {r : Lookahead (List Char)} {s : Step} {e : Expr}
    (h : (r.step s).1.answer.Builds e) : e.Canonical := by
  have cursor (hs : (r.step s).1 = (r.toCursor.step s).1) : e.Canonical :=
    Cursor.canonical_step (hs ▸ h)
  cases s with
  | peek | next | atEnd => cases h
  | token | item | call | form => exact cursor rfl

/-- **All trees that are built by any steps are canonical**, whatever state the reader is in. The
induction is on the steps. -/
theorem canonical_run (r : Lookahead (List Char)) (steps : List Step) :
    ∀ report ∈ (r.run steps).1, ∀ e, report.answer.Builds e → e.Canonical := by
  induction steps generalizing r with
  | nil => simp [run]
  | cons s steps ih =>
    intro report hreport e he
    rcases List.mem_cons.1 hreport with rfl | hlater
    · exact canonical_step he
    · exact ih (r.step s).2 report hlater e he

end Lookahead

/-! ### Printing several expressions -/

/-- Some expressions are printed one after the other, with a separator between each and the next: a
gap that is not empty, in which every comment ends with its line. -/
inductive PrintedApart : List Expr → List Char → Prop where
  /-- No expressions are printed as nothing. -/
  | nil : PrintedApart [] []
  /-- A single expression is printed without a separator. -/
  | single (e : Expr) : PrintedApart [e] (toString e).toList
  /-- Before further expressions comes a separator. -/
  | cons (e : Expr) {f : Expr} {es : List Expr} {separator text : List Char}
      (isGap : Gap false separator) (nonempty : separator ≠ [])
      (others : PrintedApart (f :: es) text) :
      PrintedApart (e :: f :: es) ((toString e).toList ++ separator ++ text)

/-- A separator makes no lexeme in front of it longer. -/
theorem startsApart_of_gap {gap : List Char} (hgap : Gap false gap) (hne : gap ≠ [])
    (text : List Char) : StartsApart (gap ++ text) := by
  intro c hc
  obtain ⟨d, gap, rfl⟩ := List.exists_cons_of_ne_nil hne
  exact goesOnWith_of_startsGap (hgap.head_eq hc) (.identifier "")

/-- **Printed expressions with separators are a way to write their tokens.** -/
theorem written_printedApart {es : List Expr} {text : List Char} (h : PrintedApart es text)
    (writable : ∀ e ∈ es, ∀ t ∈ e.tokens, t.Writable) : Written (tokensAll es) text := by
  induction h with
  | nil => exact .nil .nil
  | single e =>
    rw [tokensAll, tokensAll, List.append_nil]
    exact written_toString (writable e (by simp))
  | @cons e f es separator text isGap nonempty _ ih =>
    obtain ⟨hfirst, hothers⟩ := List.forall_mem_cons.1 writable
    have others := written_gap isGap (ih hothers)
    have first := written_render e hfirst others (startsApart_of_gap isGap nonempty text)
    rwa [← toString_eq, ← List.append_assoc] at first

/-- **Reading builds canonical trees, and printing them again is stable.** Every tree that is built
by any steps of reading from any state of a reader has only integers without a sign and only names
that can be written and are not those of truth values. And where a program can be read, any text in
which its forms are printed one after the other, with separators between them, is read as the same
forms from the same tokens. -/
theorem reading_canonical_printing_stable :
    (∀ (r : Lookahead (List Char)) (steps : List Step), ∀ report ∈ (r.run steps).1,
      ∀ e, report.answer.Builds e → e.Canonical) ∧
    ∀ (source : String) (es : List Expr), parseScript source = .ok es →
      ∀ text : String, PrintedApart es text.toList →
        parseScript text = .ok es ∧ tokenize text = tokenize source := by
  refine ⟨Lookahead.canonical_run, fun source es h text hprinted => ?_⟩
  rw [parseScript, Cursor.result_readForms_eq_ok_iff] at h
  obtain ⟨⟨c₁, c₂, hreads, hend⟩, plain⟩ := h
  have hwritable : ∀ t ∈ tokensAll es, t.Writable := Cursor.writable_of_reads hreads
  have hwritten : Written (tokensAll es) text.toList :=
    written_printedApart hprinted (forall_mem_tokensAll.1 hwritable)
  have htokens := written_iff_reads (c := .ofString text).1 hwritten
  rw [parseScript, Cursor.result_readForms_eq_ok_iff, tokenize, tokenize,
    Cursor.result_readAll_eq_ok_iff.2 htokens,
    Cursor.result_readAll_eq_ok_iff.2 ⟨c₁, c₂, hreads, hend⟩]
  exact ⟨⟨htokens, plain⟩, rfl⟩

/-- Behind an error a name is read. A program with leading zeros, an escape and a comment is printed
without them, and with another comment between its forms. -/
theorem reading_canonical_printing_stable_zeros :
    let r := Lookahead.ofCursor (.ofString ") x")
    let es : List Expr := [.call "f" [.atom (.integer 7), .atom (.string "a")], .atom (.var "x")]
    (((r.step .form).2.step .form).1.answer.Builds (.atom (.var "x")) ∧
        (Expr.atom (.var "x")).Canonical) ∧
      parseScript "(f 007 \"\\a\");\nx" = .ok es ∧
        PrintedApart es "(f 7 \"a\") ;b\nx".toList ∧ parseScript "(f 7 \"a\") ;b\nx" = .ok es ∧
          tokenize "(f 7 \"a\") ;b\nx" = tokenize "(f 007 \"\\a\");\nx" := by
  intro r es
  obtain ⟨hcanonical, hstable⟩ := reading_canonical_printing_stable
  have hbuilds : ((r.step .form).2.step .form).1.answer.Builds (.atom (.var "x")) := by
    have hform : (r.step .form).2.toCursor.readForm.answer = .ok (some (.atom (.var "x"))) := by
      cbv
    exact hform
  have hread : parseScript "(f 007 \"\\a\");\nx" = .ok es :=
    Cursor.result_readForms_eq_ok_iff.2 ⟨⟨_, _, .cons (by cbv) (.cons (by cbv) (.cons (by cbv)
      (.cons (by cbv) (.cons (by cbv) (.cons (by cbv) .nil))))), by cbv⟩,
        by simp [es, Expr.Plain, Expr.EveryAll, Expr.Every, Expr.PlainName]⟩
  have hprinted : PrintedApart es "(f 7 \"a\") ;b\nx".toList := by
    have hgap : Gap false [' ', ';', 'b', '\n'] :=
      .blank (by decide) (@Gap.comment false ['b'] [] (by decide) .nil)
    have hcall : (toString (Expr.call "f" [.atom (.integer 7), .atom (.string "a")])).toList
        = "(f 7 \"a\")".toList := by cbv
    have hprinted := PrintedApart.cons (.call "f" [.atom (.integer 7), .atom (.string "a")]) hgap
      (by simp) (.single (.atom (.var "x")))
    rwa [hcall] at hprinted
  obtain ⟨hsame, htokens⟩ := hstable _ es hread _ hprinted
  refine ⟨⟨hbuilds, ?_⟩, hread, hprinted, hsame, htokens⟩
  exact hcanonical r [.form, .form] _ (by simp [Lookahead.run]) _ hbuilds

end HostedLisp
