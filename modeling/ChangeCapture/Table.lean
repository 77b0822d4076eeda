import ChangeCapture.Json.Decoding
import ChangeCapture.Json.Writing

/-! # Tables and their columns -/

namespace ChangeCapture

/-! ## Names of tables -/

/-- A table by database, schema and name, in this order of comparison. -/
@[ext] structure TableId where
  database : String
  schema : String
  table : String
  deriving DecidableEq, Repr

namespace TableId

instance : Ord TableId := ⟨fun s t =>
  (compare s.database t.database).then
    ((compare s.schema t.schema).then (compare s.table t.table))⟩

/-- Schema and name with a point between them. -/
def display (t : TableId) : String := s!"{t.schema}.{t.table}"

instance : ToString TableId := ⟨display⟩

/-- A closing bracket is written twice. -/
def doubleBracket : List Char → List Char
  | [] => []
  | c :: rest => if c = ']' then ']' :: ']' :: doubleBracket rest else c :: doubleBracket rest

/-- A name in brackets. -/
def bracketName (name : String) : List Char := ['['] ++ doubleBracket name.toList ++ [']']

/-- Schema and name in brackets, for use in a query. -/
def bracketed (t : TableId) : String :=
  String.ofList (bracketName t.schema ++ ['.'] ++ bracketName t.table)

def toJson (t : TableId) : Json :=
  .object [("database", .string t.database), ("schema", .string t.schema),
    ("table", .string t.table)]

def ofTree? (tree : Json.Tree) : Option TableId := do
  let fields ← tree.toFields? ["database", "schema", "table"] 0
  return { database := ← fields.get? "database" Json.Tree.toString?
           schema := ← fields.get? "schema" Json.Tree.toString?
           table := ← fields.get? "table" Json.Tree.toString? }

end TableId

/-! ## Columns -/

structure Column where
  name : String
  /-- The place of the column in the table, from 1. -/
  position : Nat
  typeName : String
  nullable : Bool := true
  /-- The expression for a value that is not given, as the catalog has it. -/
  defaultValue : Option String := none
  deriving DecidableEq, Repr

namespace Column

def toJson (c : Column) : Json :=
  .object [("name", .string c.name), ("position", .integer c.position),
    ("type_name", .string c.typeName), ("nullable", .bool c.nullable),
    ("default_value", c.defaultValue.elim .null .string)]

def ofTree? (tree : Json.Tree) : Option Column := do
  let fields ← tree.toFields? ["name", "position", "type_name", "nullable", "default_value"] 0
  return { name := ← fields.get? "name" Json.Tree.toString?
           position := ← fields.get? "position" Json.Tree.toUInt32?
           typeName := ← fields.get? "type_name" Json.Tree.toString?
           nullable := ← fields.get? "nullable" Json.Tree.toBool?
           defaultValue := ← fields.getOption? "default_value" Json.Tree.toString? }

end Column

/-! ## Schemas -/

/-- The columns of a table in the order of the table, and the names of those in its key. -/
structure TableSchema where
  id : TableId
  columns : List Column
  primaryKey : List String := []
  deriving DecidableEq, Repr

namespace TableSchema

/-- The index of the first column of a name. -/
def columnIndex? (schema : TableSchema) (name : String) : Option Nat :=
  schema.columns.findIdx? fun c => c.name == name

def columnNames (schema : TableSchema) : List String := schema.columns.map Column.name

def width (schema : TableSchema) : Nat := schema.columns.length

def toJson (schema : TableSchema) : Json :=
  .object [("id", schema.id.toJson), ("columns", .array (schema.columns.map Column.toJson)),
    ("primary_key", .array (schema.primaryKey.map Json.string))]

def ofTree? (tree : Json.Tree) : Option TableSchema := do
  let fields ← tree.toFields? ["id", "columns", "primary_key"] 0
  return { id := ← fields.get? "id" TableId.ofTree?
           columns := ← fields.get? "columns" (Json.Tree.toList? Column.ofTree?)
           primaryKey := ← fields.get? "primary_key" (Json.Tree.toList? Json.Tree.toString?) }

end TableSchema

end ChangeCapture
