import HostedLisp.Proofs.Form.Grammar

/-!
# The inside of calls, token by token

Reading inside open calls is a loop over tokens that carries the events so far. Here one turn of it
is said for each answer of the token reader, and the events are told apart from what is read:
`Reading.reached` is the answer and the place reached, on which earlier events have no influence.

## Main results

* `Cursor.readInside_append` — earlier events stay in front and change nothing else
* `Cursor.reached_readInside_of_token` — a turn of the loop
-/

namespace HostedLisp

/-- What was read and the place reached, without what happened on the way. -/
def Reading.reached {α : Type} (reading : Reading α) : Except ParseError α × Cursor :=
  (reading.answer, reading.cursor)

namespace Cursor

variable {c c₁ : Cursor} {e : LexError} {t : Token}

theorem readInside_of_error (h : c.readNext = (.error e, c₁)) (calls : OpenCalls)
    (events : Array Event) : c.readInside calls events = ⟨.error (.lex e), c₁, events⟩ := by
  rw [readInside]
  split <;> rename_i heq <;> rw [h] at heq <;> cases heq
  rfl

theorem readInside_of_end (h : c.readNext = (.ok none, c₁)) (calls : OpenCalls)
    (events : Array Event) :
    c.readInside calls events
      = ⟨.error (calls.innermost.unexpectedEnd c₁.pos), c₁, events⟩ := by
  rw [readInside]
  split <;> rename_i heq <;> rw [h] at heq <;> cases heq
  rfl

/-- The events that reading starts with come before all others and change nothing else. -/
theorem readInside_append (calls : OpenCalls) (earlier events : Array Event) (c : Cursor) :
    c.readInside calls (earlier ++ events)
      = { c.readInside calls events with
          events := earlier ++ (c.readInside calls events).events } := by
  fun_induction readInside calls events c with
  | case1 calls events c e c' h => rw [readInside_of_error h]
  | case2 calls events c c' h => rw [readInside_of_end h]
  | case3 calls events c token c' h hfeed =>
    rw [readInside_of_token h, hfeed]
    simp
  | case4 calls events c token c' h e hfeed =>
    rw [readInside_of_token h, hfeed]
    simp
  | case5 calls events c token c' h calls' hfeed ih =>
    rw [readInside_of_token h, hfeed]
    simp [← ih]

theorem reached_readInside (calls : OpenCalls) (events : Array Event) (c : Cursor) :
    (c.readInside calls events).reached = (c.readInside calls #[]).reached := by
  have happend := readInside_append calls events #[] c
  rw [Array.append_empty] at happend
  rw [happend]
  rfl

/-- A token is fed to the open calls, and reading goes on inside those that are left. -/
theorem reached_readInside_of_token (h : c.readNext = (.ok (some t), c₁)) (calls : OpenCalls)
    (events : Array Event) :
    (c.readInside calls events).reached = match calls.feed? t with
      | none => (.error (.callTarget c₁.pos), c₁)
      | some (.complete e) => (.ok e, c₁)
      | some (.reading calls) => (c₁.readInside calls #[]).reached := by
  rw [readInside_of_token h]
  match calls.feed? t with
  | none | some (.complete e) => rfl
  | some (.reading calls) => exact reached_readInside ..

end Cursor

end HostedLisp
