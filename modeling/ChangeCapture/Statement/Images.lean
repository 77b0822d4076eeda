import ChangeCapture.Statement.Parser
import ChangeCapture.Table

/-! # Rows of a statement -/

namespace ChangeCapture

/-- The values of the row that a statement changes, before and after it. There is no row before an
insertion and none after a deletion. -/
structure RowImages where
  operation : Operation
  old : Row
  new : Row
  deriving DecidableEq, Repr

namespace Statement

/-! ## Failures -/

def wrongTarget (statement : Statement) (id : TableId) : CaptureError :=
  .schemaMismatch
    s!"Statement targets \"{statement.schema}\".\"{statement.table}\" but the schema is for {id}"

def wrongWidth (values columns : Nat) (id : TableId) : CaptureError :=
  .schemaMismatch s!"INSERT has {values} values but {id} has {columns} columns"

def unknownColumn (column : String) (id : TableId) : CaptureError :=
  .schemaMismatch s!"Column '{column}' is not in {id}"

/-! ## Rows -/

def emptyRow (schema : TableSchema) : Row := List.replicate schema.width none

/-- Sets the values of named columns; of two values for one column the last counts. -/
def assign (schema : TableSchema) (row : Row) :
    List (String × ValueToken) → Except CaptureError Row
  | [] => .ok row
  | (column, value) :: rest =>
      match schema.columnIndex? column with
      | some index => assign schema (row.set index value.toRaw) rest
      | none => .error (unknownColumn column schema.id)

/-- The row that an insertion makes. -/
def insertedRow (schema : TableSchema) : Assignments → Except CaptureError Row
  | .named pairs => assign schema (emptyRow schema) pairs
  | .positional values =>
      if values.length = schema.width then .ok (values.map ValueToken.toRaw)
      else .error (wrongWidth values.length schema.width schema.id)

/-- The row `old` after a change. -/
def updatedRow (schema : TableSchema) (old : Row) : Assignments → Except CaptureError Row
  | .named pairs => assign schema old pairs
  | .positional _ => .ok old

/-- The rows before and after a statement on a table. -/
def images (statement : Statement) (schema : TableSchema) : Except CaptureError RowImages :=
  if statement.schema = schema.id.schema ∧ statement.table = schema.id.table then do
    let old ← assign schema (emptyRow schema) (statement.predicates.getD [])
    match statement.operation with
    | .insert => do
        let new ← insertedRow schema statement.assignments
        return { operation := .insert, old := [], new }
    | .update => do
        let new ← updatedRow schema old statement.assignments
        return { operation := .update, old, new }
    | .delete => return { operation := .delete, old, new := [] }
  else .error (wrongTarget statement schema.id)

/-- The rows before and after the statement that a text holds. -/
def parseImages (sql : String) (schema : TableSchema) : Except CaptureError RowImages := do
  let statement ← parse sql
  statement.images schema

end Statement

end ChangeCapture
