import ChangeCapture.Offset.Basic

/-! # Committed offsets -/

namespace ChangeCapture

variable {b : Backend}

/-! ## Committing -/

/-- The offset of the last change that was acknowledged, which only moves forward. -/
structure OffsetTracker (b : Backend) where
  committed : Option (Offset b) := none
  deriving DecidableEq

/-- Moves on to an offset that the committed one does not cover. -/
def OffsetTracker.commit (tracker : OffsetTracker b) (offset : Offset b) :
    Except CaptureError (OffsetTracker b) :=
  match tracker.committed with
  | none => .ok ⟨some offset⟩
  | some current =>
      if current.covers offset then
        .error (.invalidPosition s!"Offset {offset} does not advance past committed {current}")
      else .ok ⟨some offset⟩

/-! ## Resuming -/

/-- Passes over the changes that were committed before a restart. It is armed until it meets a change
that is not covered. -/
structure ResumeFilter (b : Backend) where
  resumeAfter : Option (Offset b)
  skipped : Nat := 0
  deriving DecidableEq

/-- Says whether a change is passed over, and what remains of the filter. -/
def ResumeFilter.step (filter : ResumeFilter b) (offset : Offset b) : Bool × ResumeFilter b :=
  match filter.resumeAfter with
  | none => (false, filter)
  | some committed =>
      if committed.covers offset then (true, { filter with skipped := filter.skipped + 1 })
      else (false, { filter with resumeAfter := none })

end ChangeCapture
