import ChangeCapture.Capture.Instance

/-! # Windows of capture instances -/

namespace ChangeCapture

/-- The range that is read from one capture instance, both ends included. -/
structure SourceWindow where
  source : CaptureInstance
  first : Lsn
  last : Lsn
  /-- Where a newer capture instance of the table takes over. -/
  until? : Option Lsn
  deriving DecidableEq, Repr

namespace SourceWindow

/-- A change at a position belongs to the instance of the window and not to a newer one. -/
def owns (window : SourceWindow) (lsn : Lsn) : Bool :=
  match window.until? with
  | none => true
  | some cutoff => lsn < cutoff

/-- The label of the window in the merge. -/
def label (window : SourceWindow) : String := window.source.label

end SourceWindow

end ChangeCapture
