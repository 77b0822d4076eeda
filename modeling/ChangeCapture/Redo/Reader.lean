import ChangeCapture.Program
import ChangeCapture.Record.Basic
import ChangeCapture.Redo.Basic
import ChangeCapture.Statement.Images

/-! # Reading the redo log -/

namespace ChangeCapture

/-! ## Requests -/

/-- What is asked of a database whose redo log is read. -/
inductive RedoRequest where
  /-- The threads that have a log. -/
  | redoThreads
  /-- The rows of a thread between two change numbers, both included. -/
  | mine (thread : UInt16) (first last : Scn)
  | tableSchema (table : TableId)

namespace RedoRequest

def Answer : RedoRequest → Type
  | .redoThreads => Except CaptureError (List UInt16)
  | .mine .. => Except CaptureError (Cursor RedoRow)
  | .tableSchema _ => Except CaptureError TableSchema

/-- Redo logs as surroundings of a program. -/
def interface : Interface := ⟨RedoRequest, Answer⟩

end RedoRequest

abbrev RedoProgram := Program RedoRequest.interface

namespace RedoProgram

open RedoRequest (interface)

def redoThreads : RedoProgram (Except CaptureError (List UInt16)) :=
  Program.request (I := interface) .redoThreads

def mine (thread : UInt16) (first last : Scn) :
    RedoProgram (Except CaptureError (Cursor RedoRow)) :=
  Program.request (I := interface) (.mine thread first last)

def tableSchema (table : TableId) : RedoProgram (Except CaptureError TableSchema) :=
  Program.request (I := interface) (.tableSchema table)

end RedoProgram

/-! ## Readers -/

/-- The changes of all redo threads in a range. -/
structure RedoReader where
  merge : Merge RedoRow
  /-- The schemas that were asked for. -/
  schemas : List (TableId × TableSchema) := []
  /-- How many records were read. -/
  records : Nat := 0

namespace RedoReader

/-! ### Failures -/

def emptyRange (first last : Scn) : CaptureError :=
  .invalidPosition s!"Empty SCN range {Scn.display first}..{Scn.display last}"

def unsupportedOperation (label : String) (row : RedoRow) : CaptureError :=
  .streamRead label
    s!"unsupported OPERATION_CODE {row.operationCode.toNat} at SCN {Scn.display row.scn}"

def operationMismatch (label : String) (row : RedoRow) (operation : Operation) : CaptureError :=
  .streamRead label
    (s!"SQL_REDO at SCN {Scn.display row.scn} is {operation.name} but OPERATION_CODE is " ++
      toString row.operationCode.toNat)

/-! ### Opening -/

/-- Each thread once, in ascending order. -/
def distinctThreads (threads : List UInt16) : List UInt16 :=
  (threads.mergeSort (· ≤ ·)).eraseReps

/-- Asks for the rows of each thread in turn, up to the first failure. -/
def mineAll (first last : Scn) :
    List UInt16 → RedoProgram (Except CaptureError (List (MergeInput RedoRow)))
  | [] => return .ok []
  | thread :: threads => do
      match ← RedoProgram.mine thread first last with
      | .error e => return .error (.streamRead (threadLabel thread) e.message)
      | .ok cursor => do
          let inputs ← mineAll first last threads
          return inputs.map ({ label := threadLabel thread, cursor } :: ·)

/-- Opens a reader for the changes from `first` to `last`. -/
def start (first last : Scn) : RedoProgram (Except CaptureError RedoReader) :=
  if last < first then return .error (emptyRange first last)
  else do
    match ← RedoProgram.redoThreads with
    | .error e => return .error e
    | .ok threads => do
        let inputs ← mineAll first last (distinctThreads threads)
        return inputs.bind fun inputs => (Merge.start inputs).map fun merge => { merge }

/-! ### Reading -/

/-- Forgets the schema of a table. -/
def invalidateSchema (reader : RedoReader) (table : TableId) : RedoReader :=
  { reader with schemas := reader.schemas.filter fun s => s.1 != table }

/-- The schema of a table, which is asked for once. -/
def schemaOf (reader : RedoReader) (table : TableId) :
    RedoProgram (Except CaptureError TableSchema × RedoReader) :=
  match reader.schemas.lookup table with
  | some schema => return (.ok schema, reader)
  | none => do
      match ← RedoProgram.tableSchema table with
      | .ok schema => return (.ok schema, { reader with schemas := (table, schema) :: reader.schemas })
      | .error e => return (.error e, reader)

/-- The record of a row whose statement must do what the operation code says. -/
def recordOf (label : String) (operation : Operation) (row : RedoRow) (schema : TableSchema) :
    Except CaptureError (ChangeRecord .oracle) :=
  match Statement.parseImages row.sql schema with
  | .error e => .error (e.atPosition (Scn.display row.scn))
  | .ok images =>
      if images.operation = operation then
        .ok { kind := operation.kind, opCode := row.operationCode, table := row.table
              source := label, position := row.scn, sequence := Sequence.ofUInt64 row.sequence
              old := images.old, new := images.new }
      else .error (operationMismatch label row images.operation)

/-- The next change, or nothing at the end. A row that fails is passed over by the next call. -/
def next (reader : RedoReader) :
    RedoProgram (Except CaptureError (Option (ChangeRecord .oracle)) × RedoReader) := do
  let (result, merge) := reader.merge.next
  let reader := { reader with merge }
  match result with
  | .error e => return (.error e, reader)
  | .ok none => return (.ok none, reader)
  | .ok (some (input, row)) =>
      let label := merge.label input
      match Operation.ofCode? row.operationCode.toNat with
      | none => return (.error (unsupportedOperation label row), reader)
      | some operation => do
          let (schema, reader) ← reader.schemaOf row.table
          match schema.bind (recordOf label operation row) with
          | .error e => return (.error e, reader)
          | .ok record => return (.ok (some record), { reader with records := reader.records + 1 })

end RedoReader

end ChangeCapture
