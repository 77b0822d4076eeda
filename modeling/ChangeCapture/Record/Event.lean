import ChangeCapture.Record.Basic
import ChangeCapture.Value.Normalize

/-! # Change events -/

namespace ChangeCapture

/-! ## Transactions -/

/-- Where in a transaction an event stands. -/
structure TransactionMetadata where
  /-- The position of the transaction in hexadecimal. -/
  id : String
  /-- The sequence of the change at that position. -/
  lsn : String
  sequence : Nat
  /-- The number of events of the transaction, zero if unknown. -/
  totalEvents : Nat := 0
  /-- The time of the transaction in milliseconds. -/
  commitTs : Option Int := none
  isLast : Bool := false
  deriving DecidableEq, Repr

namespace TransactionMetadata

def toJson (t : TransactionMetadata) : Json :=
  .object [("id", .string t.id), ("lsn", .string t.lsn), ("sequence", .integer t.sequence),
    ("total_events", .integer t.totalEvents), ("commit_ts", t.commitTs.elim .null .integer),
    ("is_last", .bool t.isLast)]

def ofTree? (tree : Json.Tree) : Option TransactionMetadata := do
  let fields ← tree.toFields? ["id", "lsn", "sequence", "total_events", "commit_ts", "is_last"] 0
  return { id := ← fields.get? "id" Json.Tree.toString?
           lsn := ← fields.get? "lsn" Json.Tree.toString?
           sequence := ← fields.get? "sequence" Json.Tree.toUInt64?
           totalEvents := ← fields.get? "total_events" Json.Tree.toUInt64?
           commitTs := ← fields.getOption? "commit_ts" Json.Tree.toInt64?
           isLast := ← fields.get? "is_last" Json.Tree.toBool? }

end TransactionMetadata

/-! ## Events -/

/-- A change as it is handed to consumers. -/
structure ChangeEvent where
  sourceType : String
  database : String
  schema : String
  table : String
  kind : ChangeKind
  /-- The row before a change or deletion. -/
  before : Option Json
  /-- The row after an insertion, a change or a first reading. -/
  after : Option Json
  /-- The time of the event in seconds. -/
  timestamp : Int
  transaction : Option TransactionMetadata

namespace ChangeEvent

/-- The topic of the table of the event. -/
def topic (event : ChangeEvent) : String := s!"cdc.{event.database}.{event.schema}.{event.table}"

def isModification (event : ChangeEvent) : Bool := event.kind.isModification

def transactionId (event : ChangeEvent) : Option String := event.transaction.map (·.id)

/-- An event without a transaction leaves that member out. -/
def toJson (event : ChangeEvent) : Json :=
  .object ([("source_type", .string event.sourceType), ("database", .string event.database),
    ("schema", .string event.schema), ("table", .string event.table),
    ("op", .string event.kind.eventName), ("before", event.before.getD .null),
    ("after", event.after.getD .null), ("timestamp", .integer event.timestamp)] ++
    match event.transaction with
    | some t => [("transaction", t.toJson)]
    | none => [])

def fieldNames : List String :=
  ["source_type", "database", "schema", "table", "op", "before", "after", "timestamp",
    "transaction"]

/-- A row inside an event, which is one level deep itself. -/
def rowOfTree? (tree : Json.Tree) : Option Json := tree.toJson? (Json.maxDepth - 1)

def ofTree? (tree : Json.Tree) : Option ChangeEvent := do
  let fields ← tree.toFields? fieldNames 1
  return { sourceType := ← fields.get? "source_type" Json.Tree.toString?
           database := ← fields.get? "database" Json.Tree.toString?
           schema := ← fields.get? "schema" Json.Tree.toString?
           table := ← fields.get? "table" Json.Tree.toString?
           kind := ← fields.get? "op"
             (Json.Tree.toChoice? (ChangeKind.all.map fun k => (k.eventName, k)))
           before := ← fields.getOption? "before" rowOfTree?
           after := ← fields.getOption? "after" rowOfTree?
           timestamp := ← fields.get? "timestamp" Json.Tree.toInt64?
           transaction := ← fields.getOption? "transaction" TransactionMetadata.ofTree? }

end ChangeEvent

/-! ## Events of records -/

namespace ChangeRecord

variable {b : Backend}

/-- The failure of a row that does not have one value for each column. -/
def widthMismatch (values : Nat) (schema : TableSchema) : CaptureError :=
  .schemaMismatch s!"{values} values for {schema.width} columns of {schema.id}"

/-- The values of the columns by name. -/
def rowMembers : List Column → Row → Except CaptureError (List (String × Json))
  | column :: columns, value :: values => do
      let json ← Value.normalize column value
      let members ← rowMembers columns values
      return (column.name, json) :: members
  | _, _ => .ok []

/-- The object of a row. An empty row has none. -/
def rowObject (schema : TableSchema) (row : Row) : Except CaptureError (Option Json) :=
  if row.isEmpty then .ok none
  else if row.length = schema.width then
    (rowMembers schema.columns row).map fun members => some (Json.ofMembers members)
  else .error (widthMismatch row.length schema)

/-- The event of a record at some time, with the number of the event in its interval. -/
def toEvent (record : ChangeRecord b) (database : String) (schema : TableSchema)
    (serial : Nat) (timestamp : Int) : Except CaptureError ChangeEvent := do
  let before ← rowObject schema record.old
  let after ← rowObject schema record.new
  return { sourceType := b.name, database, schema := record.table.schema
           table := record.table.table, kind := record.kind, before, after, timestamp
           transaction := some { id := record.position.toHex, lsn := record.sequence.display
                                 sequence := serial } }

end ChangeRecord

end ChangeCapture
