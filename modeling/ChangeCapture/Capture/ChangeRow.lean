import ChangeCapture.Change
import ChangeCapture.Merge
import ChangeCapture.Position.Sequence
import ChangeCapture.Value.Raw

/-! # Rows of change tables -/

namespace ChangeCapture

/-! ## Operations -/

/-- What a row of a change table stands for. A change of a row is recorded by two rows, one before and
one after it. -/
inductive RowOperation where
  | delete
  | insert
  | updateBefore
  | updateAfter
  deriving DecidableEq, Repr

namespace RowOperation

/-- The number of the operation in the change table. -/
def code : RowOperation → UInt8
  | .delete => 1
  | .insert => 2
  | .updateBefore => 3
  | .updateAfter => 4

def ofCode? (code : UInt8) : Option RowOperation :=
  if code = 1 then some .delete
  else if code = 2 then some .insert
  else if code = 3 then some .updateBefore
  else if code = 4 then some .updateAfter
  else none

def kind : RowOperation → ChangeKind
  | .delete => .delete
  | .insert => .insert
  | .updateBefore | .updateAfter => .update

def name : RowOperation → String
  | .delete => "Delete"
  | .insert => "Insert"
  | .updateBefore => "UpdateBefore"
  | .updateAfter => "UpdateAfter"

end RowOperation

/-! ## Rows -/

/-- A row of a change table. -/
structure ChangeRow where
  /-- The position of the transaction. -/
  startLsn : Lsn
  /-- The order of the change in its transaction. -/
  seqval : Lsn
  operation : UInt8
  /-- The values of the captured columns. -/
  values : Row
  deriving DecidableEq, Repr

namespace ChangeRow

/-- Position, order in the transaction and operation compared in this order. -/
def compareKeys (r s : ChangeRow) : Ordering :=
  (compare r.startLsn s.startLsn).then
    ((compare r.seqval s.seqval).then (compare r.operation s.operation))

/-- A log sequence number as a value of a record type. -/
def describeLsn (lsn : Lsn) : String :=
  match lsn.toBytes with
  | none => "Lsn \x7b bytes: None \x7d"
  | some bytes =>
      "Lsn \x7b bytes: Some([" ++
        String.intercalate ", " (bytes.map fun b => toString b.toNat) ++ "]) \x7d"

def describeKey (r : ChangeRow) : String :=
  "(" ++ String.intercalate ", "
    [describeLsn r.startLsn, describeLsn r.seqval, toString r.operation.toNat] ++ ")"

instance : MergeRow ChangeRow := ⟨compareKeys, describeKey⟩

end ChangeRow

end ChangeCapture
