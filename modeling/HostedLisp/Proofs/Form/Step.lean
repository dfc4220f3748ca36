import HostedLisp.Proofs.Form.Behind
import HostedLisp.Proofs.Text.Lookahead

/-!
# Steps that keep nothing but their place

Reading can be interrupted after any step, also after one that failed in the middle of a call, and
what is read from there on is what a new reader would read in the rest of the text. The reports are
the same but for their positions, which continue those of the place where the new reader starts.

A reader at some place and a new one on the rest of the text are at places that belong to each other
in the sense of `Cursor.behind`. A step leads from such places to such places, and a run of steps
does so by induction.

## Main results

* `Cursor.step_behind` — a step from any start
* `Lookahead.run_behind` — a run of steps from any start
* `Lookahead.run_eq_fresh_run` — what is read from a place that was reached in any way
-/

namespace HostedLisp

namespace Cursor

variable (start c : Cursor)

theorem drop_behind (n : Nat) : (start.behind c).drop n = start.behind (c.drop n) :=
  (behind_advance start c _ _).symm

theorem tokenEvents_mapPos (f : Position → Position) (answer : Except LexError (Option Token)) :
    (tokenEvents answer).map (·.mapPos f) = tokenEvents (answer.mapError (·.mapPos f)) := by
  match answer with
  | .ok (some t) => simp [tokenEvents, Except.mapError, Event.mapPos]
  | .ok none | .error e => simp [tokenEvents, Except.mapError]

/-- Behind an opening parenthesis reading starts with no events, wherever it starts. -/
theorem readCall_behind : (start.behind c).readCall = c.readCall.behind start := by
  have hinside := readInside_behind start c .start #[]
  rwa [Array.map_empty] at hinside

/-- **A step reads in the same way from any start.** -/
theorem step_behind (s : Step) :
    (start.behind c).step s
      = ((c.step s).1.mapPos start.pos.behind, start.behind (c.step s).2) := by
  cases s with
  | peek | atEnd => simp [step, Report.mapPos, Answer.mapPos, behind]
  | next =>
    rw [step, step, drop_behind]
    simp [Report.mapPos, Answer.mapPos, behind]
  | token =>
    have hevents := tokenEvents_mapPos start.pos.behind c.readNext.1
    rw [step, step, readNext_behind]
    dsimp only [Report.mapPos, Answer.mapPos]
    rw [hevents]
    rfl
  | item =>
    rw [step, step, readItem_behind]
    rfl
  | call =>
    rw [step, step, readCall_behind]
    rfl
  | form =>
    rw [step, step, readForm_behind]
    rfl

end Cursor

namespace Lookahead

variable {r r' : Lookahead (List Char)}

/-- **Steps read in the same way from any start.** The induction is on the steps, each of which
leads to places that belong to each other again. -/
theorem run_behind (start : Cursor) (h : r.Faithful) (h' : r'.Faithful)
    (hplace : r.toCursor = start.behind r'.toCursor) (steps : List Step) :
    (r.run steps).1 = (r'.run steps).1.map (·.mapPos start.pos.behind) ∧
      (r.run steps).2.toCursor = start.behind (r'.run steps).2.toCursor := by
  induction steps generalizing r r' with
  | nil => exact ⟨rfl, hplace⟩
  | cons s steps ih =>
    obtain ⟨hreport, hnext, hfaithful⟩ := step_eq h s
    obtain ⟨hreport', hnext', hfaithful'⟩ := step_eq h' s
    rw [hplace, Cursor.step_behind] at hreport hnext
    rw [← hreport'] at hreport
    rw [← hnext'] at hnext
    obtain ⟨hreports, hlast⟩ := ih hfaithful hfaithful' hnext
    refine ⟨?_, hlast⟩
    change (r.step s).1 :: ((r.step s).2.run steps).1 = _
    rw [hreport, hreports]
    rfl

/-- **Reading keeps nothing but its place.** Whatever steps have led to it, and whether they failed
or not, the steps from there report what they report of the unread text alone, with every position
continuing that of the place, and they leave the same text unread. -/
theorem run_eq_fresh_run (source : String) (before after : List Step) :
    let reached := ((ofString source).run before).2
    let fresh := ofSource reached.unread
    (reached.run after).1 = (fresh.run after).1.map (·.mapPos reached.pos.behind) ∧
      (reached.run after).2.unread = (fresh.run after).2.unread := by
  intro reached fresh
  have hreached : reached.Faithful := faithful_run (faithful_ofString source) before
  have hfresh : fresh.Faithful := faithful_of_slot_eq_none rfl
  have hplace : reached.toCursor = reached.toCursor.behind fresh.toCursor :=
    (Cursor.behind_ofList reached.toCursor).symm
  obtain ⟨hreports, hlast⟩ := run_behind reached.toCursor hreached hfresh hplace after
  exact ⟨hreports, congrArg Cursor.unread hlast⟩

/-- Behind the error of a call that nothing can be read in, no call is open any more, and its
parenthesis closes nothing. -/
example : ((ofString "(f #)").run [.form, .next, .form]).1.getLast?.map Report.answer
    = some (.form (.error (.unexpectedClosing ⟨0, 5⟩))) := by cbv

end Lookahead

end HostedLisp
