import ChangeCapture.Text.Blank
import ChangeCapture.Text.Search

/-! # Kinds of columns -/

namespace ChangeCapture

/-- What the values of a column are. -/
inductive ColumnKind where
  | integer
  | decimal
  | float
  | boolean
  | text
  | binary
  | date
  | time
  | timestamp
  | timestampTz
  | uuid
  | other
  deriving DecidableEq, Repr

namespace ColumnKind

def name : ColumnKind → String
  | .integer => "Integer"
  | .decimal => "Decimal"
  | .float => "Float"
  | .boolean => "Boolean"
  | .text => "Text"
  | .binary => "Binary"
  | .date => "Date"
  | .time => "Time"
  | .timestamp => "Timestamp"
  | .timestampTz => "TimestampTz"
  | .uuid => "Uuid"
  | .other => "Other"

/-- The kind of a type without its length. -/
def ofBaseName (base : String) : ColumnKind :=
  if ["tinyint", "smallint", "int", "integer", "bigint"].contains base then .integer
  else if ["decimal", "numeric", "number", "money", "smallmoney"].contains base then .decimal
  else if ["float", "real", "binary_float", "binary_double", "double precision"].contains base then
    .float
  else if ["bit", "boolean"].contains base then .boolean
  else if ["char", "varchar", "nchar", "nvarchar", "text", "ntext", "varchar2", "nvarchar2", "clob",
      "nclob", "xml", "sysname", "long"].contains base then .text
  else if ["binary", "varbinary", "image", "raw", "long raw", "blob", "rowversion"].contains base then
    .binary
  else if base = "date" then .date
  else if base = "time" then .time
  else if ["datetime", "datetime2", "smalldatetime", "timestamp"].contains base then .timestamp
  else if base = "datetimeoffset" then .timestampTz
  else if base = "uniqueidentifier" then .uuid
  else .other

/-- The kind of a type by its name in any case. A length in parentheses does not count. -/
def ofTypeName (typeName : String) : ColumnKind :=
  let lower := Text.lowerAscii (Text.trim typeName.toList)
  if Text.occursIn "with time zone".toList lower ∨
      Text.occursIn "with local time zone".toList lower then .timestampTz
  else
    let base := if lower.contains '(' then Text.trimRight (lower.takeWhile (· != '(')) else lower
    ofBaseName (String.ofList base)

end ColumnKind

end ChangeCapture
