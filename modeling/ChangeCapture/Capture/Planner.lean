import ChangeCapture.Capture.Registry

/-! # Planning the windows of an interval -/

namespace ChangeCapture.Planner

/-- Another instance of the same table that starts later. -/
def supersedes (other source : CaptureInstance) : Bool :=
  other.table = source.table ∧ other.name ≠ source.name ∧ !other.startLsn.isNull ∧
    source.startLsn < other.startLsn

/-- Where the next newer instance of the table takes over. -/
def supersededAt? (source : CaptureInstance) (sources : List CaptureInstance) : Option Lsn :=
  ((sources.filter (supersedes · source)).map CaptureInstance.startLsn).min?

/-- The window of an instance whose lower bound is known, unless nothing is left of it. -/
def windowFrom (sources : List CaptureInstance) (source : CaptureInstance) (lower last : Lsn) :
    Option SourceWindow :=
  if last < lower then none
  else
    let until? := supersededAt? source sources
    if until?.any (· ≤ lower) then none
    else some { source, first := lower, last, until? }

/-- The window of an instance in an interval. Where neither the instance nor the interval says where it
begins, the server is asked for the lowest position that it has. -/
def windowOf (sources : List CaptureInstance) (first last : Lsn) (source : CaptureInstance) :
    CaptureStep (Option SourceWindow) := do
  if !source.stopLsn.isNull && source.stopLsn < first then return none
  else
    let lower := max source.startLsn first
    if lower.isNull then
      let lowest ← Server.minLsn source.name
      return if lowest.isNull then none else windowFrom sources source lowest last
    else return windowFrom sources source lower last

/-- The windows of some instances in their order. -/
def windowsOf (sources : List CaptureInstance) (first last : Lsn) :
    List CaptureInstance → CaptureStep (List SourceWindow)
  | [] => return []
  | source :: rest => do
      let window ← windowOf sources first last source
      let windows ← windowsOf sources first last rest
      return window.toList ++ windows

/-- Tables in their order, and the instances of a table by name. -/
def windowLE (v w : SourceWindow) : Bool :=
  ((compare v.source.table w.source.table).then (compare v.source.name w.source.name)).isLE

/-- The windows of an interval, both ends of which are included. -/
def plan (sources : List CaptureInstance) (first last : Lsn) : CaptureStep (List SourceWindow) := do
  let windows ← windowsOf sources first last sources
  return windows.mergeSort windowLE

end ChangeCapture.Planner
