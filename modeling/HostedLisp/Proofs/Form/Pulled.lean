import HostedLisp.Proofs.Form.Consumed

/-!
# The tokens that reading pulls

Reading an item or a form pulls tokens one after the other, and tells of each token once, in order.
It ends with the last token of what it reads, with a token that cannot stand where it does, or where
there is no further token. In the last case something more may have been consumed: a gap, or what
cannot be read as a token.

Every token is written with at least one character, so no more tokens are pulled than characters are
consumed. This bounds the number of turns of all loops over tokens.

## Main definitions

* `Cursor.Pulls` — some tokens are pulled on the way from one cursor to another

## Main results

* `Cursor.pulls_readInside`, `Cursor.pulls_readItem` — the tokens pulled are those that are told of
* `Cursor.length_add_le_of_pulls` — no more tokens than characters
-/

namespace HostedLisp

namespace Cursor

variable {c c₁ c₂ : Cursor} {t : Token} {ts us : List Token}

/-- The tokens `ts` are pulled on the way from `c` to `c₁`. Behind the last one there may have been
an attempt to pull another one that found none. -/
def Pulls (c : Cursor) (ts : List Token) (c₁ : Cursor) : Prop :=
  ∃ last, c.Reads ts last ∧
    (c₁ = last ∨ (∀ t, last.readNext.1 ≠ .ok (some t)) ∧ c₁ = last.readNext.2)

theorem Reads.pulls (h : c.Reads ts c₁) : c.Pulls ts c₁ := ⟨c₁, h, .inl rfl⟩

theorem Pulls.cons (first : c.readNext = (.ok (some t), c₁)) (others : c₁.Pulls ts c₂) :
    c.Pulls (t :: ts) c₂ := by
  obtain ⟨last, hreads, hlast⟩ := others
  exact ⟨last, .cons first hreads, hlast⟩

/-- An attempt that finds no token pulls none. -/
theorem pulls_of_no_token {answer : Except LexError (Option Token)} (h : c.readNext = (answer, c₁))
    (hanswer : ∀ t, answer ≠ .ok (some t)) : c.Pulls [] c₁ := by
  refine ⟨c, .nil, .inr ⟨?_, ?_⟩⟩
  · rwa [h]
  · rw [h]

/-- Only at the end of the text is nothing pulled without an error. -/
theorem Pulls.eq_nil_of_end (h : c.Pulls ts c₁) (hend : c.readNext.1 = .ok none) : ts = [] := by
  obtain ⟨last, hreads, -⟩ := h
  cases hreads with
  | nil => rfl
  | cons first _ =>
    rw [first] at hend
    cases hend

/-! ### No more tokens than characters -/

theorem length_add_le_of_reads (h : c.Reads ts c₁) :
    ts.length + c₁.unread.length ≤ c.unread.length := by
  induction h with
  | nil => simp
  | cons first _ ih =>
    have hlt := length_readNext_lt first
    rw [List.length_cons]
    omega

/-- **No more tokens are pulled than characters are consumed.** -/
theorem length_add_le_of_pulls (h : c.Pulls ts c₁) :
    ts.length + c₁.unread.length ≤ c.unread.length := by
  obtain ⟨last, hreads, rfl | ⟨-, rfl⟩⟩ := h
  · exact length_add_le_of_reads hreads
  · have hle := last.length_readNext_le
    have := length_add_le_of_reads hreads
    omega

/-! ### Items -/

/-- **The inside of calls.** Each turn of the loop pulls one token and tells of it. -/
theorem pulls_readInside (calls : OpenCalls) (events : Array Event) (c : Cursor) :
    ∃ ts, c.Pulls ts (c.readInside calls events).cursor ∧
      (c.readInside calls events).events = events ++ (ts.map Event.read).toArray := by
  fun_induction readInside calls events c with
  | case1 calls events c e c' h => exact ⟨[], pulls_of_no_token h (by simp), by simp⟩
  | case2 calls events c c' h => exact ⟨[], pulls_of_no_token h (by simp), by simp⟩
  | case3 calls events c t c' h hfeed => exact ⟨[t], (Reads.cons h .nil).pulls, by simp⟩
  | case4 calls events c t c' h e hfeed => exact ⟨[t], (Reads.cons h .nil).pulls, by simp⟩
  | case5 calls events c t c' h calls' hfeed ih =>
    obtain ⟨ts, hpulls, hevents⟩ := ih
    exact ⟨t :: ts, .cons h hpulls, by rw [hevents]; simp⟩

/-- **The tokens of an item** are told of one after the other. -/
theorem pulls_readItem (c : Cursor) :
    ∃ ts, c.Pulls ts c.readItem.cursor ∧ c.readItem.events = (ts.map Event.read).toArray := by
  rw [readItem]
  split
  · next h => exact ⟨[], pulls_of_no_token h (by simp), rfl⟩
  · next h => exact ⟨[], pulls_of_no_token h (by simp), rfl⟩
  · next t c' h =>
    have single : c.Pulls [t] c' := (Reads.cons h .nil).pulls
    cases t with
    | opening =>
      obtain ⟨ts, hpulls, hevents⟩ := pulls_readInside .start #[.read .opening] c'
      exact ⟨.opening :: ts, .cons h hpulls, by simp [hevents]⟩
    | closing | integer _ | string _ | identifier _ => exact ⟨_, single, rfl⟩

/-- Where no form is read, reading tells of the tokens that it has pulled and of nothing else. -/
theorem pulls_readForm_of_no_form (h : ∀ e, c.readForm.answer ≠ .ok (some e)) :
    ∃ ts, c.Pulls ts c.readForm.cursor ∧ c.readForm.events = (ts.map Event.read).toArray := by
  obtain ⟨ts, hpulls, hevents⟩ := c.pulls_readItem
  refine ⟨ts, by rwa [cursor_readForm], ?_⟩
  rw [readForm] at h ⊢
  split at h
  · exact hevents
  · exact hevents
  · exact hevents
  · next e _ => exact absurd rfl (h e)

end Cursor

end HostedLisp
