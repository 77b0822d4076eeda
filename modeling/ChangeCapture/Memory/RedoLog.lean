import ChangeCapture.Memory.CallLog
import ChangeCapture.Redo.Reader

/-! # A redo log in memory -/

namespace ChangeCapture

/-- The redo log and the tables of a database. -/
structure MemoryRedoLog extends CallLog where
  /-- The threads with the rows of each. -/
  threads : List (UInt16 × List RedoRow)
  /-- The schemas of tables; of several schemas of a table the last counts. -/
  schemas : List TableSchema

namespace MemoryRedoLog

def onCalls {α : Type} (action : StateM CallLog α) : StateM MemoryRedoLog α :=
  modifyGet fun log =>
    let (a, calls) := action.run log.toCallLog
    (a, { log with toCallLog := calls })

/-- Notes a call and answers it, unless a fault of its name applies. -/
def call {α : Type} (words : List String) (name : String)
    (value : MemoryRedoLog → StateM MemoryRedoLog (Except CaptureError α)) :
    StateM MemoryRedoLog (Except CaptureError α) := do
  match ← onCalls (CallLog.note words name) with
  | .error e => return .error e
  | .ok _ => value (← get)

/-- The rows of a thread between two change numbers. -/
def rowsOf (log : MemoryRedoLog) (thread : UInt16) (first last : Scn) : List RedoRow :=
  ((log.threads.filter fun t => t.1 = thread).flatMap Prod.snd).filter fun row =>
    row.scn.inRange first last

def schemaOf? (log : MemoryRedoLog) (table : TableId) : Option TableSchema :=
  log.schemas.reverse.find? fun schema => schema.id.display = table.display

def unknownTable (table : TableId) : CaptureError := .schema s!"Unknown table {table}"

/-- Answers a request from the log. -/
def answer : (request : RedoRequest) → StateM MemoryRedoLog (RedoRequest.Answer request)
  | .redoThreads =>
      call ["redo_threads"] "redo_threads" fun log => return .ok (log.threads.map Prod.fst)
  | .mine thread first last =>
      let number := toString thread.toNat
      call ["mine", number, Scn.display first, Scn.display last] s!"mine:{number}" fun log => do
        let rows := log.rowsOf thread first last
        return .ok (← onCalls (CallLog.openCursor number rows))
  | .tableSchema table =>
      call ["table_schema", table.display] "table_schema" fun log =>
        return (log.schemaOf? table).elim (.error (unknownTable table)) .ok

end MemoryRedoLog

end ChangeCapture
