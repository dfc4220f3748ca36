import HostedLisp.Proofs.Form.Grammar

/-!
# What reading forms consumes

Whatever is read through a cursor, the inside of a call or a form, and whether that succeeds or not,
the cursor is moved by some characters that stand at the front of the unread text. So the place
reached is settled by what is left to read.

## Main results

* `Cursor.leads_readInside`, `Cursor.leads_readForm` — reading consumes characters from the front
-/

namespace HostedLisp

namespace Cursor

variable {c : Cursor}

theorem leads_readInside (calls : OpenCalls) (events : Array Event) (c : Cursor) :
    c.Leads (c.readInside calls events).cursor := by
  fun_induction readInside calls events c with
  | case1 _ _ _ _ _ h | case2 _ _ _ _ h | case3 _ _ _ _ _ h | case4 _ _ _ _ _ h =>
    exact leads_of_readNext h
  | case5 _ _ _ _ _ h _ _ ih => exact (leads_of_readNext h).trans ih

theorem leads_readItem (c : Cursor) : c.Leads c.readItem.cursor := by
  rw [readItem]
  split
  · next h => exact leads_of_readNext h
  · next h => exact leads_of_readNext h
  · next token c' h =>
    have hleads := leads_of_readNext h
    cases token with
    | opening => exact hleads.trans (leads_readInside ..)
    | closing | integer _ | string _ | identifier _ => exact hleads

theorem cursor_readForm (c : Cursor) : c.readForm.cursor = c.readItem.cursor := by
  rw [readForm]
  split <;> rfl

theorem leads_readForm (c : Cursor) : c.Leads c.readForm.cursor := by
  rw [cursor_readForm]
  exact c.leads_readItem

end Cursor

end HostedLisp
