import ChangeCapture.Cursor

/-! # Planned faults -/

namespace ChangeCapture

/-- A failure that calls of some name meet. -/
structure PlannedFault where
  name : String
  error : CaptureError
  /-- How many calls are still to meet it, if their number is limited. -/
  times : Option Nat := none
  /-- How many rows a cursor gives before it fails. -/
  after : Nat := 0

namespace PlannedFault

/-- The fault still applies to calls of a name. -/
def applies (fault : PlannedFault) (name : String) : Bool :=
  fault.name = name ∧ fault.times ≠ some 0

/-- The fault after one more call has met it. -/
def used (fault : PlannedFault) : PlannedFault := { fault with times := fault.times.map (· - 1) }

/-- The first fault that applies to a call of a name, and the faults after that call. -/
def take (name : String) : List PlannedFault → Option PlannedFault × List PlannedFault
  | [] => (none, [])
  | fault :: faults =>
      if fault.applies name then (some fault, fault.used :: faults)
      else
        let (found, rest) := take name faults
        (found, fault :: rest)

/-- A cursor that fails in place of one of its rows, or of its end. -/
def cursor {α : Type} (rows : List α) (fault : Option PlannedFault) : Cursor α :=
  match fault with
  | none => { rows }
  | some fault =>
      if fault.after ≤ rows.length then
        { rows := rows.take fault.after, failure := some fault.error }
      else { rows }

end PlannedFault

end ChangeCapture
