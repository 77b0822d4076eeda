import ChangeCapture.Memory.Fault

/-! # Calls that are noted -/

namespace ChangeCapture

/-- The calls that were made, and the faults that further calls meet. -/
structure CallLog where
  faults : List PlannedFault := []
  /-- A line for each call, the last one first. -/
  noted : List String := []

namespace CallLog

/-- A line for each call in the order of the calls. -/
def calls (log : CallLog) : List String := log.noted.reverse

/-- The fault that a call of a name meets, if there is one. -/
def meet (name : String) : StateM CallLog (Option PlannedFault) :=
  modifyGet fun log =>
    let (found, faults) := PlannedFault.take name log.faults
    (found, { log with faults })

/-- Notes the words of a call, which fails if a fault of its name applies. -/
def note (words : List String) (name : String) : StateM CallLog (Except CaptureError Unit) := do
  modify fun log => { log with noted := String.intercalate " " words :: log.noted }
  return (← meet name).elim (.ok ()) fun fault => .error fault.error

/-- A cursor over rows, which may fail on the way as a fault of the name of the rows says. -/
def openCursor {α : Type} (name : String) (rows : List α) : StateM CallLog (Cursor α) := do
  return PlannedFault.cursor rows (← meet s!"row:{name}")

end CallLog

end ChangeCapture
