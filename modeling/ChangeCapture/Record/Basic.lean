import ChangeCapture.Change
import ChangeCapture.Offset.Basic
import ChangeCapture.Table
import ChangeCapture.Value.Raw

/-! # Change records -/

namespace ChangeCapture

/-- The label of a source in the merge: the table and what it is read from. -/
def sourceLabel (table : TableId) (source : String) : String := s!"{table}:{source}"

/-- A change of a row. There are no old values of an insertion or a first reading and no new values of
a deletion. -/
structure ChangeRecord (b : Backend) where
  kind : ChangeKind
  /-- The number of the operation in the log. -/
  opCode : UInt8
  table : TableId
  /-- The capture instance or redo thread that the record was read from. -/
  source : String
  position : Position b
  sequence : Sequence b
  old : Row
  new : Row
  deriving DecidableEq

namespace ChangeRecord

variable {b : Backend}

/-- The label of the source of the record. -/
def origin (record : ChangeRecord b) : String := sourceLabel record.table record.source

/-- The place of the record among all changes. -/
def offset (record : ChangeRecord b) : Offset b :=
  { position := record.position, sequence := record.sequence, op := record.opCode
    origin := record.origin }

end ChangeRecord

end ChangeCapture
