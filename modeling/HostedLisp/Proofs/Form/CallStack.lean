import HostedLisp.Form.CallStack
import HostedLisp.Proofs.Form.Inside

/-!
# Reading on a plain stack

A reader with a plain stack reads calls as the one whose calls are never empty. Starting inside one
call it never gets to a stack without calls, whatever it reads: a call that closes is handed to the
one around it, and where there is none reading is over. So the two cases that only a plain stack has
never occur, and no closing parenthesis is refused inside a call.

## Main results

* `CallStack.turn_toList`, `CallStack.ne_nil_of_turn` — one turn
* `CallStack.read_toList`, `CallStack.ne_nil_of_reaches` — a whole run
-/

namespace HostedLisp

/-- Open calls as a plain stack. -/
def OpenCalls.toList (calls : OpenCalls) : List OpenCall := calls.innermost :: calls.outer

namespace CallStack

/-! ### One turn -/

/-- The turn that what a token does to open calls amounts to. -/
def Turn.ofProgress (pos : Position) : Option Progress → Turn
  | none => .done (.error (.callTarget pos))
  | some (.complete e) => .done (.ok e)
  | some (.reading calls) => .next calls.toList

theorem hand_toList (calls : OpenCalls) (e : Expr) (pos : Position) :
    hand calls.toList e pos = .ofProgress pos ((calls.add? e).map .reading) := by
  simp only [OpenCalls.toList, hand, OpenCalls.add?]
  cases calls.innermost.add? e <;> rfl

/-- **A turn of a stack with calls on it is what the token does to these calls.** -/
theorem turn_toList (calls : OpenCalls) (t : Token) (pos : Position) :
    turn calls.toList (some t) pos = .ofProgress pos (calls.feed? t) := by
  cases t with
  | opening => rfl
  | integer _ | string _ | identifier _ => exact hand_toList calls _ pos
  | closing =>
    obtain ⟨innermost, outer⟩ := calls
    simp only [OpenCalls.toList, turn, OpenCalls.feed?, OpenCalls.close?]
    cases innermost.close? with
    | none => rfl
    | some e =>
      cases outer with
      | nil => rfl
      | cons call outer =>
        simp only [hand, Option.bind_some]
        cases call.add? e <;> rfl

/-- **No turn leads to a stack without calls.** -/
theorem ne_nil_of_turn {stack stack' : List OpenCall} {token? : Option Token} {pos : Position}
    (h : turn stack token? pos = .next stack') : stack' ≠ [] := by
  have hhand {stack : List OpenCall} {e : Expr} (h : hand stack e pos = .next stack') :
      stack' ≠ [] := by
    unfold hand at h
    split at h
    · cases h
    · split at h <;> cases h
      simp
  unfold turn at h
  split at h
  · cases h
  · cases h
    simp
  · split at h
    · cases h
    · split at h
      · exact hhand h
      · cases h
  all_goals exact hhand h

/-! ### Whole runs -/

/-- **Every stack that reading meets has calls on it**, if the first one has. The induction is on
the turns. -/
theorem ne_nil_of_reaches {stack stack' : List OpenCall} {c c' : Cursor}
    (h : Reaches stack c stack' c') (hne : stack ≠ []) : stack' ≠ [] := by
  induction h with
  | refl => exact hne
  | turn _ leads _ ih => exact ih (ne_nil_of_turn leads)

theorem read_eq (stack : List OpenCall) (c : Cursor) :
    read stack c = match c.readNext with
      | (.error e, c') => (.error (.lex e), c')
      | (.ok token?, c') =>
        match turn stack token? c'.pos with
        | .done answer => (answer, c')
        | .next stack => read stack c' := by
  rw [read]
  split <;> rename_i heq <;> rw [heq]
  split <;> rename_i hturn <;> simp only [hturn]

/-- **A plain stack is read like the open calls on it.** -/
theorem read_toList (calls : OpenCalls) (events : Array Event) (c : Cursor) :
    read calls.toList c = (c.readInside calls events).reached := by
  fun_induction Cursor.readInside calls events c with
  | case1 calls events c e c' h => rw [read_eq, h]; rfl
  | case2 calls events c c' h => rw [read_eq, h]; rfl
  | case3 calls events c token c' h hfeed =>
    rw [read_eq, h]
    simp only [turn_toList, hfeed]
    rfl
  | case4 calls events c token c' h e hfeed =>
    rw [read_eq, h]
    simp only [turn_toList, hfeed]
    rfl
  | case5 calls events c token c' h calls' hfeed ih =>
    rw [read_eq, h]
    simp only [turn_toList, hfeed]
    exact ih

/-- **No closing parenthesis is refused inside a call.** -/
theorem answer_readInside_ne (calls : OpenCalls) (events : Array Event) (c : Cursor)
    (pos : Position) : (c.readInside calls events).answer ≠ .error (.unexpectedClosing pos) := by
  fun_induction Cursor.readInside calls events c with
  | case1 | case3 | case4 => simp
  | case2 calls =>
    cases h : calls.innermost.head? <;> simp [OpenCall.unexpectedEnd, h]
  | case5 _ _ _ _ _ _ _ _ ih => exact ih

end CallStack

end HostedLisp
