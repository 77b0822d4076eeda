import ChangeCapture.Error

/-! # Cursors -/

namespace ChangeCapture

/-- The rows that a query yields one by one, and the failure that comes after them, if there is one.
Once it has failed a cursor fails again. -/
structure Cursor (α : Type) where
  rows : List α
  failure : Option CaptureError := none

namespace Cursor

variable {α : Type}

/-- The next row with the cursor behind it, or nothing at the end. -/
def next (cursor : Cursor α) : Except CaptureError (Option (α × Cursor α)) :=
  match cursor.rows with
  | row :: rows => .ok (some (row, { cursor with rows }))
  | [] =>
      match cursor.failure with
      | some e => .error e
      | none => .ok none

end Cursor

end ChangeCapture
