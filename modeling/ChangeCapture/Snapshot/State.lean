import ChangeCapture.Json.Decoding
import ChangeCapture.Json.Writing
import ChangeCapture.Position.Lsn
import ChangeCapture.Table
import Std.Data.TreeMap

/-! # Progress of a first reading -/

namespace ChangeCapture

/-! ## Tables -/

/-- How far a table has been read. -/
structure TableProgress where
  schema : String
  table : String
  processedRows : Nat := 0
  complete : Bool := false
  deriving DecidableEq, Repr

namespace TableProgress

/-- Nothing of a table has been read. -/
def start (schema table : String) : TableProgress := { schema, table }

def toJson (p : TableProgress) : Json :=
  .object [("schema", .string p.schema), ("table", .string p.table),
    ("processed_rows", .integer p.processedRows), ("complete", .bool p.complete)]

def ofTree? (tree : Json.Tree) : Option TableProgress := do
  let fields ← tree.toFields? ["schema", "table", "processed_rows", "complete"] 0
  return { schema := ← fields.get? "schema" Json.Tree.toString?
           table := ← fields.get? "table" Json.Tree.toString?
           processedRows := ← fields.get? "processed_rows" Json.Tree.toUInt64?
           complete := ← fields.get? "complete" Json.Tree.toBool? }

end TableProgress

/-! ## All tables -/

/-- The progress of a first reading of the tables of a database. -/
structure SnapshotState where
  database : String
  /-- The position in hexadecimal after which changes are read. -/
  snapshotLsn : String
  /-- The progress of each table by schema and name with a point between them. -/
  tables : Std.TreeMap String TableProgress := ∅
  startedAt : Int
  completedAt : Option Int := none

namespace SnapshotState

/-- Nothing has been read. -/
def start (database : String) (lsn : Lsn) (startedAt : Int) : SnapshotState :=
  { database, snapshotLsn := lsn.toHex, startedAt }

/-- The position of all rows that are read. -/
def watermark (state : SnapshotState) : Except CaptureError Lsn :=
  Position.ofHex (b := .sqlserver) state.snapshotLsn

/-- The key of a table. -/
def tableKey (schema table : String) : String := s!"{schema}.{table}"

def isComplete (state : SnapshotState) : Bool := state.tables.values.all TableProgress.complete

def isTableComplete (state : SnapshotState) (schema table : String) : Bool :=
  (state.tables.get? (tableKey schema table)).any TableProgress.complete

/-- A table that is to be read. One that is known stays as it is. -/
def addTable (state : SnapshotState) (schema table : String) : SnapshotState :=
  { state with tables := state.tables.insertIfNew (tableKey schema table) (.start schema table) }

/-- A known table has been read. -/
def markComplete (state : SnapshotState) (schema table : String) (rows : Nat) : SnapshotState :=
  match state.tables.get? (tableKey schema table) with
  | none => state
  | some progress =>
      let read := { progress with processedRows := rows, complete := true }
      { state with tables := state.tables.insert (tableKey schema table) read }

/-! ### JSON text -/

def toJson (state : SnapshotState) : Json :=
  .object [("database", .string state.database), ("snapshot_lsn", .string state.snapshotLsn),
    ("tables", .object (state.tables.toList.map fun t => (t.1, t.2.toJson))),
    ("started_at", .integer state.startedAt),
    ("completed_at", state.completedAt.elim .null .integer)]

/-- The progress of tables by name; of several members of one name the last counts. -/
def tablesOfTree? : Json.Tree → Option (Std.TreeMap String TableProgress)
  | .object members => do
      let tables ← members.mapM fun m => do
        let name ← m.1
        let progress ← TableProgress.ofTree? m.2
        return (name, progress)
      return tables.foldl (fun map t => map.insert t.1 t.2) ∅
  | _ => none

def ofTree? (tree : Json.Tree) : Option SnapshotState := do
  let fields ← tree.toFields?
    ["database", "snapshot_lsn", "tables", "started_at", "completed_at"] 0
  return { database := ← fields.get? "database" Json.Tree.toString?
           snapshotLsn := ← fields.get? "snapshot_lsn" Json.Tree.toString?
           tables := ← fields.get? "tables" tablesOfTree?
           startedAt := ← fields.get? "started_at" Json.Tree.toInt64?
           completedAt := ← fields.getOption? "completed_at" Json.Tree.toInt64? }

/-- The text of a file that keeps the progress. -/
def write (state : SnapshotState) : String := state.toJson.indented 0

def read (text : String) : Except CaptureError SnapshotState := Json.decodeText ofTree? text

end SnapshotState

end ChangeCapture
