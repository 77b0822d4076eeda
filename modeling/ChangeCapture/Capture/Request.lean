import ChangeCapture.Capture.ChangeRow
import ChangeCapture.Capture.Window
import ChangeCapture.Offset.Basic
import ChangeCapture.Program
import ChangeCapture.Record.Basic

/-! # What capture asks of its surroundings -/

namespace ChangeCapture

/-! ## The server -/

/-- A question to the server, or an order. -/
inductive ServerRequest where
  /-- All capture instances of the server. -/
  | listInstances
  /-- The names of the capture instances that start in a range. -/
  | listNewInstances (first last : Lsn)
  /-- The columns of a table in its order. -/
  | tableColumns (table : TableId)
  | keyColumns (table : TableId)
  /-- The lowest position that a capture instance still has. -/
  | minLsn (name : String)
  /-- The highest position that was captured. -/
  | maxLsn
  /-- The position of the last transaction. -/
  | maxTransactionLsn
  /-- The position of the n-th transaction from a position on. -/
  | nthTransactionLsn (first : Lsn) (n : Nat)
  /-- The position after one. -/
  | incrementLsn (lsn : Lsn)
  | changes (window : SourceWindow)
  | snapshotRows (table : TableId) (columns : List String)
  /-- Releases the lock of a table. -/
  | unlockTable (table : TableId)

def ServerRequest.Answer : ServerRequest → Type
  | .listInstances => Except CaptureError (List ListedInstance)
  | .listNewInstances .. => Except CaptureError (List String)
  | .tableColumns _ => Except CaptureError (List Column)
  | .keyColumns _ => Except CaptureError (List String)
  | .minLsn _ | .maxLsn | .maxTransactionLsn | .nthTransactionLsn .. | .incrementLsn _ =>
      Except CaptureError Lsn
  | .changes _ => Except CaptureError (Cursor ChangeRow)
  | .snapshotRows .. => Except CaptureError (Cursor Row)
  | .unlockTable _ => Except CaptureError Unit

/-! ## Storage -/

/-- Use of what is kept between two runs: offsets by key, and files that hold progress. -/
inductive StorageRequest where
  | loadOffset (key : String)
  | saveOffset (key : String) (offset : Offset .sqlserver)
  | readProgress (path : String)
  | writeProgress (path text : String)

def StorageRequest.Answer : StorageRequest → Type
  | .loadOffset _ => Except CaptureError (Option (Offset .sqlserver))
  | .readProgress _ => Except CaptureError (Option String)
  | .saveOffset .. | .writeProgress .. => Except CaptureError Unit

/-! ## All requests -/

/-- How waiting for a lock ends. -/
inductive LockAnswer where
  | granted
  | refused (e : CaptureError)
  /-- The time to wait is over. -/
  | expired

/-- Whatever capture asks for. -/
inductive CaptureRequest where
  | server (request : ServerRequest)
  | storage (request : StorageRequest)
  /-- An exclusive lock, waited for at most some milliseconds. -/
  | lockTable (table : TableId) (timeout : Nat)
  /-- Hands over a record and waits until it is acknowledged. -/
  | deliver (record : ChangeRecord .sqlserver)
  /-- Whether the capture is to go on. -/
  | isActive
  /-- The time in seconds. -/
  | now

namespace CaptureRequest

def Answer : CaptureRequest → Type
  | .server request => request.Answer
  | .storage request => request.Answer
  | .lockTable .. => LockAnswer
  | .deliver _ => Except CaptureError Unit
  | .isActive => Bool
  | .now => Int

def interface : Interface := ⟨CaptureRequest, Answer⟩

end CaptureRequest

/-- A program that captures changes. -/
abbrev CaptureProgram := Program CaptureRequest.interface

/-- A program that may fail. -/
abbrev CaptureStep := ExceptT CaptureError CaptureProgram

end ChangeCapture
