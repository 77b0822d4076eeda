import ChangeCapture.Lock
import ChangeCapture.Snapshot.State

/-! # First reading of tables -/

namespace ChangeCapture.SnapshotReading

/-! ## Rows -/

def wrongWidth (schema : TableSchema) (row : Row) : CaptureError :=
  .schemaMismatch
    s!"Snapshot of {schema.id} returned {row.length} values for {schema.width} columns"

/-- The record of a row at a position. -/
def record (schema : TableSchema) (watermark : Lsn) (row : Row) : ChangeRecord .sqlserver :=
  { kind := .snapshot, opCode := 0, table := schema.id, source := "snapshot", position := watermark
    sequence := Sequence.ofLsn Position.null, old := [], new := row }

/-- Hands over rows one by one; each must have a value for each column. -/
def deliverRows (schema : TableSchema) (watermark : Lsn) : List Row → CaptureStep Unit
  | [] => return
  | row :: rows => do
      if row.length ≠ schema.width then throw (wrongWidth schema row)
      else
        Server.deliver (record schema watermark row)
        deliverRows schema watermark rows

/-- Reads a table and counts its rows. A failure of the query comes after the rows before it. -/
def readTable (schema : TableSchema) (watermark : Lsn) : CaptureStep Nat := do
  let cursor ← Server.snapshotRows schema.id schema.columnNames
  deliverRows schema watermark cursor.rows
  match cursor.failure with
  | some e => throw e
  | none => return cursor.rows.length

/-! ## Tables -/

/-- A program that may fail and keeps the progress of what was done before. -/
abbrev SnapshotStep := ExceptT CaptureError (StateT SnapshotState CaptureProgram)

def liftStep {α : Type} (step : CaptureStep α) : SnapshotStep α :=
  ExceptT.mk (StateT.lift step.run)

/-- Keeps the progress in a file, if there is one. -/
def saveProgress (path : Option String) : SnapshotStep Unit := do
  match path with
  | some path => do
      let state ← get
      liftStep (Server.writeProgress path state.write)
  | none => return

/-- Reads a table under its lock, unless that was done before. -/
def snapshotTable (timeout : Nat) (path : Option String) (watermark : Lsn) (schema : TableSchema) :
    SnapshotStep Unit := do
  let id := schema.id
  modify fun state => state.addTable id.schema id.table
  if (← get).isTableComplete id.schema id.table then return
  else
    let rows ← liftStep (CaptureStep.locked id timeout (readTable schema watermark))
    modify fun state => state.markComplete id.schema id.table rows
    saveProgress path

def snapshotTables (timeout : Nat) (path : Option String) (watermark : Lsn) :
    List TableSchema → SnapshotStep Unit
  | [] => return
  | schema :: schemas => do
      snapshotTable timeout path watermark schema
      snapshotTables timeout path watermark schemas

/-- Reads tables at the position of the progress. The progress is kept after each table and at the
end. -/
def snapshot (timeout : Nat) (path : Option String) (schemas : List TableSchema) :
    SnapshotStep Unit := do
  let watermark ← ExceptT.mk (return (← get).watermark)
  snapshotTables timeout path watermark schemas
  let time ← liftStep (ExceptT.lift Server.now)
  modify fun state => { state with completedAt := some time }
  saveProgress path

/-- Reads tables; the answer is the outcome and the progress that was made. -/
def execute (timeout : Nat) (path : Option String) (schemas : List TableSchema)
    (state : SnapshotState) : CaptureProgram (Except CaptureError Unit × SnapshotState) :=
  (snapshot timeout path schemas).run.run state

end ChangeCapture.SnapshotReading
