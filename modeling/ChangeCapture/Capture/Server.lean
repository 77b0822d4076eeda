import ChangeCapture.Capture.Request

/-! # Single requests of a capture program -/

namespace ChangeCapture

namespace Server

open CaptureRequest (interface)

/-- Asks for anything. -/
def ask (request : CaptureRequest) : CaptureProgram request.Answer :=
  Program.request (I := interface) request

/-! ## The server -/

def listInstances : CaptureStep (List ListedInstance) := ask (.server .listInstances)

def listNewInstances (first last : Lsn) : CaptureStep (List String) :=
  ask (.server (.listNewInstances first last))

def tableColumns (table : TableId) : CaptureStep (List Column) := ask (.server (.tableColumns table))

def keyColumns (table : TableId) : CaptureStep (List String) := ask (.server (.keyColumns table))

def minLsn (name : String) : CaptureStep Lsn := ask (.server (.minLsn name))

def maxLsn : CaptureStep Lsn := ask (.server .maxLsn)

def maxTransactionLsn : CaptureStep Lsn := ask (.server .maxTransactionLsn)

def nthTransactionLsn (first : Lsn) (n : Nat) : CaptureStep Lsn :=
  ask (.server (.nthTransactionLsn first n))

def incrementLsn (lsn : Lsn) : CaptureStep Lsn := ask (.server (.incrementLsn lsn))

def changes (window : SourceWindow) : CaptureStep (Cursor ChangeRow) :=
  ask (.server (.changes window))

def snapshotRows (table : TableId) (columns : List String) : CaptureStep (Cursor Row) :=
  ask (.server (.snapshotRows table columns))

def lockTable (table : TableId) (timeout : Nat) : CaptureProgram LockAnswer :=
  ask (.lockTable table timeout)

def unlockTable (table : TableId) : CaptureProgram (Except CaptureError Unit) :=
  ask (.server (.unlockTable table))

/-! ## Storage -/

def loadOffset (key : String) : CaptureStep (Option (Offset .sqlserver)) :=
  ask (.storage (.loadOffset key))

def saveOffset (key : String) (offset : Offset .sqlserver) : CaptureStep Unit :=
  ask (.storage (.saveOffset key offset))

def readProgress (path : String) : CaptureStep (Option String) :=
  ask (.storage (.readProgress path))

def writeProgress (path text : String) : CaptureStep Unit :=
  ask (.storage (.writeProgress path text))

/-! ## The receiver and the clock -/

def deliver (record : ChangeRecord .sqlserver) : CaptureStep Unit := ask (.deliver record)

def isActive : CaptureProgram Bool := ask .isActive

def now : CaptureProgram Int := ask .now

end Server

end ChangeCapture
