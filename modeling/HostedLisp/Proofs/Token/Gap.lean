import HostedLisp.Token.Written

/-!
# The gap at the front of a text

`splitGap` cuts a text behind the longest gap at its front. The gap it finds is one in the sense of
`Gap`, which says what a gap is without reading it, and what is left starts with neither a blank nor
a comment. These two facts determine the cut.

Whether the gap is the final one depends on what is left: a comment that no newline ends can only
stand at the end of a text.

## Main results

* `splitGap_eq_iff` — the cut that `splitGap` makes
-/

namespace HostedLisp

/-- A text that starts with neither a blank nor a comment. -/
def NoLeadingGap (cs : List Char) : Prop := ∀ c ∈ cs.head?, isBlank c = false ∧ c ≠ ';'

theorem noLeadingGap_cons {c : Char} {cs : List Char} :
    NoLeadingGap (c :: cs) ↔ isBlank c = false ∧ c ≠ ';' := by
  simp [NoLeadingGap]

namespace Gap

variable {final : Bool}

/-- A comment may be longer by any character but a newline. -/
theorem insert_in_comment {c : Char} {cs : List Char} (h : Gap final (';' :: cs)) (hc : c ≠ '\n') :
    Gap final (';' :: c :: cs) := by
  cases h with
  | blank hblank => exact absurd hblank (by decide)
  | @comment text gap htext hgap =>
    rw [← List.cons_append]
    exact .comment (by simp [htext, hc.symm]) hgap
  | last hfinal htext => exact .last hfinal (by simp [htext, hc.symm])

/-- A gap starts with a blank or a comment, if with anything. -/
theorem head_eq {gap : List Char} {c : Char} (h : Gap final gap) (hc : c ∈ gap.head?) :
    isBlank c ∨ c = ';' := by
  cases h with
  | nil => simp at hc
  | blank hblank =>
    obtain rfl : _ = c := by simpa using hc
    exact .inl hblank
  | comment | last => exact .inr (by simpa [eq_comm] using hc)

/-- Two gaps are one. Only the second may end in a comment that lacks its newline. -/
theorem append {before behind : List Char} (hbefore : Gap false before)
    (hbehind : Gap final behind) : Gap final (before ++ behind) := by
  induction hbefore with
  | nil => exact hbehind
  | blank hblank _ ih => exact .blank hblank ih
  | @comment text gap htext _ ih =>
    rw [List.cons_append, List.append_assoc]
    exact .comment htext ih
  | last hfinal _ => cases hfinal

end Gap

/-! ### Soundness -/

/-- The characters that are added to a gap are one. Where a comment is open already, they continue
it, so they are a gap behind a semicolon. -/
theorem gap_of_splitGapOnto (gap : List Char) (comment : Bool) (cs : List Char) :
    ∃ added, (splitGapOnto gap comment cs).1 = gap.reverse ++ added ∧
      Gap (splitGapOnto gap comment cs).2.isEmpty (if comment then ';' :: added else added) ∧
      NoLeadingGap (splitGapOnto gap comment cs).2 := by
  fun_induction splitGapOnto gap comment cs with
  | case1 gap comment =>
    refine ⟨[], by simp, ?_, by simp [NoLeadingGap]⟩
    cases comment
    · exact .nil
    · exact .last rfl (by simp)
  | case2 gap c cs ih =>
    obtain ⟨added, hcut, hgap, hrest⟩ := ih
    refine ⟨c :: added, by simpa using hcut, ?_, hrest⟩
    rw [if_pos rfl]
    -- A newline ends the comment, and any other character makes it longer.
    by_cases hc : c = '\n'
    · subst hc
      rw [if_neg (by simp)] at hgap
      exact .comment (List.not_mem_nil (a := '\n')) hgap
    · exact .insert_in_comment (by simpa [hc] using hgap) hc
  | case3 gap comment c cs hcomment hc ih =>
    obtain ⟨added, hcut, hgap, hrest⟩ := ih
    refine ⟨c :: added, by simpa using hcut, ?_, hrest⟩
    rw [if_neg hcomment]
    exact .blank hc hgap
  | case4 gap comment cs hcomment hblank ih =>
    obtain ⟨added, hcut, hgap, hrest⟩ := ih
    refine ⟨';' :: added, by simpa using hcut, ?_, hrest⟩
    rw [if_neg hcomment]
    exact hgap
  | case5 gap comment c cs hcomment hblank hc =>
    refine ⟨[], by simp, ?_, noLeadingGap_cons.2 ⟨by simpa using hblank, hc⟩⟩
    rw [if_neg hcomment]
    exact .nil

theorem gap_splitGap (cs : List Char) : Gap (splitGap cs).2.isEmpty (splitGap cs).1 := by
  obtain ⟨added, hcut, hgap, -⟩ := gap_of_splitGapOnto [] false cs
  rw [splitGap, hcut]
  simpa using hgap

theorem noLeadingGap_splitGap (cs : List Char) : NoLeadingGap (splitGap cs).2 := by
  obtain ⟨-, -, -, hrest⟩ := gap_of_splitGapOnto [] false cs
  exact hrest

/-! ### Completeness -/

/-- Nothing is added to a gap in front of a text that has no gap at its front. -/
theorem splitGapOnto_of_noLeadingGap (gap : List Char) {rest : List Char}
    (h : NoLeadingGap rest) : splitGapOnto gap false rest = (gap.reverse, rest) := by
  cases rest with
  | nil => rfl
  | cons c cs =>
    obtain ⟨hblank, hc⟩ := noLeadingGap_cons.1 h
    simp [splitGapOnto, hblank, hc]

/-- The text of a comment is added as long as no newline ends it. -/
theorem splitGapOnto_comment (gap : List Char) {text : List Char} (h : '\n' ∉ text)
    (cs : List Char) :
    splitGapOnto gap true (text ++ cs) = splitGapOnto (text.reverse ++ gap) true cs := by
  induction text generalizing gap with
  | nil => rfl
  | cons c text ih =>
    have hc : c ≠ '\n' := fun hc => h (by simp [hc])
    have htext : '\n' ∉ text := fun htext => h (by simp [htext])
    rw [List.cons_append, splitGapOnto, if_pos rfl, show (c != '\n') = true by simpa using hc,
      ih (c :: gap) htext]
    simp

theorem splitGapOnto_gap (before : List Char) {gap rest : List Char} {final : Bool}
    (hgap : Gap final gap) (hfinal : final → rest = []) (hrest : NoLeadingGap rest) :
    splitGapOnto before false (gap ++ rest) = (before.reverse ++ gap, rest) := by
  induction hgap generalizing before with
  | nil => simpa using splitGapOnto_of_noLeadingGap before hrest
  | blank hc _ ih => simp [splitGapOnto, hc, ih]
  | @comment text gap htext _ ih =>
    have hsemi : isBlank ';' = false := by decide
    rw [List.cons_append, List.append_assoc, splitGapOnto, if_neg (by simp),
      if_neg (by simp [hsemi]), if_pos rfl, splitGapOnto_comment _ htext, List.cons_append,
      splitGapOnto]
    simpa using ih ('\n' :: (text.reverse ++ ';' :: before))
  | @last text hlast htext =>
    have hsemi : isBlank ';' = false := by decide
    rw [hfinal hlast, List.cons_append, splitGapOnto, if_neg (by simp), if_neg (by simp [hsemi]),
      if_pos rfl, splitGapOnto_comment _ htext]
    simp [splitGapOnto]

/-- **The cut behind the gap at the front of a text.** -/
theorem splitGap_eq_iff {cs gap rest : List Char} :
    splitGap cs = (gap, rest) ↔
      gap ++ rest = cs ∧ Gap rest.isEmpty gap ∧ NoLeadingGap rest := by
  constructor
  · intro h
    have hcut := splitGap_append cs
    have hgap := gap_splitGap cs
    have hrest := noLeadingGap_splitGap cs
    rw [h] at hcut hgap hrest
    exact ⟨hcut, hgap, hrest⟩
  · rintro ⟨rfl, hgap, hrest⟩
    simpa [splitGap] using splitGapOnto_gap [] hgap (by simp) hrest

end HostedLisp
