import ChangeCapture.Merge
import ChangeCapture.Position.Sequence
import ChangeCapture.Table
import ChangeCapture.Text.Escaped

/-! # Rows of the redo log -/

namespace ChangeCapture

/-- A row of the redo log of one thread. -/
structure RedoRow where
  scn : Scn
  /-- The order of the row at its change number. -/
  sequence : UInt64
  operationCode : UInt8
  table : TableId
  sql : String
  deriving DecidableEq, Repr

namespace RedoRow

/-- Change number, sequence, operation and table compared in this order. -/
def compareKeys (r s : RedoRow) : Ordering :=
  (compare r.scn s.scn).then
    ((compare r.sequence s.sequence).then
      ((compare r.operationCode s.operationCode).then (compare r.table s.table)))

/-- A change number as a value of a record type. -/
def describeScn (scn : Scn) : String :=
  match scn.value with
  | none => "Scn \x7b value: None \x7d"
  | some v => "Scn \x7b value: Some(" ++ toString v.toNat ++ ") \x7d"

/-- A table as a value of a record type. -/
def describeTable (t : TableId) : String :=
  "TableId \x7b database: " ++ Text.quoted t.database ++ ", schema: " ++ Text.quoted t.schema ++
    ", table: " ++ Text.quoted t.table ++ " \x7d"

def describeKey (r : RedoRow) : String :=
  "(" ++ String.intercalate ", "
    [describeScn r.scn, toString r.sequence.toNat, toString r.operationCode.toNat,
      describeTable r.table] ++ ")"

instance : MergeRow RedoRow := ⟨compareKeys, describeKey⟩

end RedoRow

/-- The label of a redo thread, as wide for all threads, so that labels go in the order of the
threads. -/
def threadLabel (thread : UInt16) : String :=
  "thread-" ++ String.ofList (Text.decimalPadded 5 thread.toNat)

end ChangeCapture
