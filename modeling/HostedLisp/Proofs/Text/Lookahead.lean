import HostedLisp.Form.Step

/-!
# A slot in front of a text

A reader with a slot in front of a list of characters is at the place of a cursor: peeking and
asking for the end leave that place as it is, and every character handed out moves it by one. So a
slot makes no difference to what is read, however peeks and reads are mixed with other steps.

This needs that an empty answer in the slot was given by a list that has ended, which every reader
of a text keeps: `Lookahead.Faithful`.

## Main results

* `Lookahead.peek_eq`, `Lookahead.next_eq`, `Lookahead.atEnd_eq` — reading single characters
* `Lookahead.step_eq`, `Lookahead.faithful_run` — any step, any number of steps
-/

namespace HostedLisp

namespace Lookahead

variable {r : Lookahead (List Char)}

/-- The slot holds no missing character while the list has another one. -/
def Faithful (r : Lookahead (List Char)) : Prop := r.slot = some none → r.source = []

theorem faithful_of_slot_eq_none (h : r.slot = none) : r.Faithful := by simp [Faithful, h]

theorem faithful_ofString (s : String) : (ofString s).Faithful := faithful_of_slot_eq_none rfl

/-! ### Single characters -/

/-- **Peeking** shows the next unread character and stays where it is. -/
theorem peek_eq (h : r.Faithful) :
    r.peek.1 = r.unread.head? ∧ r.peek.2.toCursor = r.toCursor ∧ r.peek.2.Faithful := by
  obtain ⟨source, slot, offset, pos⟩ := r
  match slot, source with
  | none, [] => exact ⟨rfl, rfl, fun _ => rfl⟩
  | none, c :: cs => exact ⟨rfl, rfl, by simp [Faithful, peek, CharSource.pull]⟩
  | some none, source =>
    obtain rfl : source = [] := h rfl
    exact ⟨rfl, rfl, h⟩
  | some (some c), source => exact ⟨rfl, rfl, h⟩

/-- **Handing out a character** moves the place by that character. -/
theorem next_eq (h : r.Faithful) :
    r.next.1 = r.unread.head? ∧ r.next.2.toCursor = r.toCursor.drop 1 ∧ r.next.2.Faithful := by
  obtain ⟨source, slot, offset, pos⟩ := r
  match slot, source with
  | none, [] | none, c :: cs => exact ⟨rfl, rfl, faithful_of_slot_eq_none rfl⟩
  | some none, source =>
    obtain rfl : source = [] := h rfl
    exact ⟨rfl, rfl, faithful_of_slot_eq_none rfl⟩
  | some (some c), source => exact ⟨rfl, rfl, faithful_of_slot_eq_none rfl⟩

/-- **Asking for the end** stays where it is. -/
theorem atEnd_eq (h : r.Faithful) :
    r.atEnd.1 = r.unread.isEmpty ∧ r.atEnd.2.toCursor = r.toCursor ∧ r.atEnd.2.Faithful := by
  obtain ⟨hanswer, hrest⟩ := peek_eq h
  refine ⟨?_, hrest⟩
  have hnone : r.atEnd.1 = r.peek.1.isNone := rfl
  rw [hnone, hanswer]
  cases r.unread <;> rfl

/-! ### Steps of any kind -/

/-- **Every step is one of the cursor** at the place of the reader. -/
theorem step_eq (h : r.Faithful) (s : Step) :
    (r.step s).1 = (r.toCursor.step s).1 ∧ (r.step s).2.toCursor = (r.toCursor.step s).2 ∧
      (r.step s).2.Faithful := by
  cases s with
  | peek =>
    obtain ⟨hanswer, hplace, hfaithful⟩ := peek_eq h
    have hreport : (r.step .peek).1 = ⟨.peeked r.peek.1, r.peek.2.pos, #[]⟩ := rfl
    have hpos : r.peek.2.pos = r.toCursor.pos := congrArg Cursor.pos hplace
    refine ⟨?_, hplace, hfaithful⟩
    rw [hreport, hanswer, hpos]
    rfl
  | next =>
    obtain ⟨hanswer, hplace, hfaithful⟩ := next_eq h
    have hreport : (r.step .next).1 = ⟨.char r.next.1, r.next.2.pos, #[]⟩ := rfl
    have hpos : r.next.2.pos = (r.toCursor.drop 1).pos := congrArg Cursor.pos hplace
    refine ⟨?_, hplace, hfaithful⟩
    rw [hreport, hanswer, hpos]
    rfl
  | atEnd =>
    obtain ⟨hanswer, hplace, hfaithful⟩ := atEnd_eq h
    have hreport : (r.step .atEnd).1 = ⟨.atEnd r.atEnd.1, r.atEnd.2.pos, #[]⟩ := rfl
    have hpos : r.atEnd.2.pos = r.toCursor.pos := congrArg Cursor.pos hplace
    refine ⟨?_, hplace, hfaithful⟩
    rw [hreport, hanswer, hpos]
    rfl
  | token | item | call | form => exact ⟨rfl, rfl, faithful_of_slot_eq_none rfl⟩

theorem faithful_run (h : r.Faithful) (steps : List Step) : (r.run steps).2.Faithful := by
  induction steps generalizing r with
  | nil => exact h
  | cons s steps ih => exact ih (step_eq h s).2.2

end Lookahead

end HostedLisp
