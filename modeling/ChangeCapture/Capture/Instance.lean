import ChangeCapture.Position.Lsn
import ChangeCapture.Record.Basic
import ChangeCapture.Validation

/-! # Capture instances -/

namespace ChangeCapture

/-! ## Instances -/

/-- A capture instance records the changes of a table in a table of its own. A table may have two of
them while its columns change. -/
structure CaptureInstance where
  table : TableId
  name : String
  /-- The number of the change table. -/
  objectId : Int
  /-- The first position that is covered. -/
  startLsn : Lsn
  /-- The last position that is covered, null while the instance is active. -/
  stopLsn : Lsn
  /-- The columns in the order of the change table. -/
  capturedColumns : List String
  deriving DecidableEq, Repr

namespace CaptureInstance

/-- The instance records no more changes. -/
def isRetired (ci : CaptureInstance) : Bool := !ci.stopLsn.isNull

def changeTableName (ci : CaptureInstance) : String := ci.name ++ "_CT"

/-- The label of the instance in the merge. -/
def label (ci : CaptureInstance) : String := sourceLabel ci.table ci.name

def display (ci : CaptureInstance) : String :=
  s!"{ci.name} ({ci.table}) [{Lsn.display ci.startLsn}, {Lsn.display ci.stopLsn}]"

end CaptureInstance

/-! ## Listings -/

/-- A row of the listing of capture instances as the server gives it. -/
structure ListedInstance where
  schema : String
  table : String
  name : String
  objectId : Int := 0
  startLsn : Option (List UInt8)
  endLsn : Option (List UInt8)
  capturedColumnList : Option String

/-- The parts of a text between commas that are followed by a blank. -/
def splitCommaBlank : List Char → List (List Char)
  | [] => [[]]
  | ',' :: ' ' :: rest => [] :: splitCommaBlank rest
  | c :: rest =>
      match splitCommaBlank rest with
      | part :: parts => (c :: part) :: parts
      | [] => [[c]]

/-- The names in a list of columns: brackets are left out, and a comma and a blank separate names. -/
def parseCapturedColumns (list : Option String) : List String :=
  let stripped := (list.getD "").toList.filter fun c => c != '[' && c != ']'
  if stripped.isEmpty then [] else (splitCommaBlank stripped).map String.ofList

/-- A list of columns as the server writes it: each name in brackets, with a comma and a blank
between them. -/
def renderCapturedColumns (columns : List String) : String :=
  String.intercalate ", " (columns.map fun name => "[" ++ name ++ "]")

namespace ListedInstance

/-- A position column of the listing. -/
def position (row : ListedInstance) (column : String) (bytes : Option (List UInt8)) :
    Except CaptureError Lsn :=
  match Position.ofBytes (b := .sqlserver) bytes with
  | .ok lsn => .ok lsn
  | .error e =>
      .error (.discovery s!"Invalid {column} for capture instance '{row.name}': {e.message}")

/-- The capture instance of a row. Its name must be plain and its range in order. -/
def toInstance (database : String) (row : ListedInstance) : Except CaptureError CaptureInstance := do
  match Validation.captureInstance row.name with
  | .error invalid => throw (.discovery invalid.message)
  | .ok _ =>
      let startLsn ← row.position "start_lsn" row.startLsn
      let stopLsn ← row.position "end_lsn" row.endLsn
      if !startLsn.isNull && !stopLsn.isNull && stopLsn < startLsn then
        throw (.discovery
          (s!"Capture instance '{row.name}' has start LSN {Lsn.display startLsn} " ++
            s!"after stop LSN {Lsn.display stopLsn}"))
      else
        return { table := { database, schema := row.schema, table := row.table }
                 name := row.name, objectId := row.objectId, startLsn, stopLsn
                 capturedColumns := parseCapturedColumns row.capturedColumnList }

end ListedInstance

end ChangeCapture
