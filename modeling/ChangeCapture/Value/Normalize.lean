import ChangeCapture.Calendar.Reading
import ChangeCapture.Calendar.Writing
import ChangeCapture.Decimal.Reading
import ChangeCapture.Table
import ChangeCapture.Text.Base64
import ChangeCapture.Text.Uuid
import ChangeCapture.Value.Expression
import ChangeCapture.Value.Kind
import ChangeCapture.Value.Raw

/-! # The meaning of captured values -/

namespace ChangeCapture

namespace Column

/-- The failure of a text that is no value of the kind of the column. -/
def invalidValue (column : Column) (what : String) (text : List Char) : CaptureError :=
  .schema s!"Invalid {what} value '{String.ofList text}' for column '{column.name}' ({column.typeName})"

/-- A value that may be missing because the text does not denote one. -/
def valueOf (column : Column) (what : String) (text : List Char) (value : Option Json) :
    Except CaptureError Json :=
  match value with
  | some json => .ok json
  | none => .error (column.invalidValue what text)

end Column

namespace Value

open Decimal (Binary64)

/-! ## By type of value -/

/-- Numbers without a decimal text become null. -/
def ofFloat (x : Binary64) : Json := if x.isFinite then .float x else .null

def ofChars (text : List Char) : Json := .string (String.ofList text)

/-- Bytes in base 64, or an identifier where the column holds identifiers and there are sixteen. -/
def ofBytes (kind : ColumnKind) (bytes : List UInt8) : Json :=
  if kind = .uuid ∧ bytes.length = 16 then .string (Text.Uuid.ofMixedEndian bytes).render
  else .string (Text.Base64.encode bytes)

def booleanOfText? (text : List Char) : Option Json :=
  let word := String.ofList (Text.lowerAscii (Text.trim text))
  if word = "1" ∨ word = "true" then some (.bool true)
  else if word = "0" ∨ word = "false" then some (.bool false)
  else none

/-- The value of a text in a column of some kind. -/
def ofText (column : Column) (kind : ColumnKind) (text : List Char) : Except CaptureError Json :=
  let trimmed := Text.trim text
  match kind with
  | .integer => column.valueOf "integer" text ((Text.readInt64? trimmed).map .integer)
  | .decimal =>
      column.valueOf "decimal" text ((Decimal.readNumberText? trimmed).map fun _ => ofChars trimmed)
  | .float => column.valueOf "float" text ((Decimal.read? trimmed).map ofFloat)
  | .boolean => column.valueOf "boolean" text (booleanOfText? text)
  | .binary =>
      column.valueOf "binary" text
        ((Text.Hex.decode (String.ofList trimmed)).toOption.map (.string ∘ Text.Base64.encode))
  | .date =>
      column.valueOf "date" text
        ((Calendar.readDateTime? text).map fun ts => ofChars ts.date.write)
  | .time =>
      column.valueOf "time" text ((Calendar.readTimeOfDay? text).map fun t => ofChars t.write)
  | .timestamp =>
      column.valueOf "timestamp" text ((Calendar.readDateTime? text).map fun ts => ofChars ts.write)
  | .timestampTz =>
      column.valueOf "zoned timestamp" text ((Calendar.readZoned? text).map fun z => ofChars z.write)
  | .uuid =>
      column.valueOf "uniqueidentifier" text
        ((Text.Uuid.read? trimmed).map fun id => .string id.render)
  | .text | .other => .ok (ofChars text)

def ofInteger (kind : ColumnKind) (n : Int) : Json :=
  match kind with
  | .boolean => .bool (n ≠ 0)
  | .decimal => .string (toString n)
  | _ => .integer n

def ofBoolean (kind : ColumnKind) (b : Bool) : Json :=
  match kind with
  | .integer => .integer (if b then 1 else 0)
  | _ => .bool b

def ofTimestamp (kind : ColumnKind) (ts : Calendar.DateTime) : Json :=
  match kind with
  | .date => ofChars ts.date.write
  | .time => ofChars ts.time.write
  | _ => ofChars ts.write

/-! ## Normal form -/

/-- The JSON value of a captured value in a column. A value that is not there is null. -/
def normalize (column : Column) (value : Option RawValue) : Except CaptureError Json :=
  let kind := ColumnKind.ofTypeName column.typeName
  match value with
  | none => .ok .null
  | some (.text s) => ofText column kind s.toList
  | some (.literal body) => ofText column kind (Literal.unescape body.toList)
  | some (.expression source) => do
      match ← Expression.content source.toList with
      | .text text => ofText column kind text
      | .bytes bytes => return ofBytes kind bytes
      | .null => return .null
  | some (.binary bytes) => .ok (ofBytes kind bytes)
  | some (.integer n) => .ok (ofInteger kind n)
  | some (.float x) => .ok (if kind = .decimal then .string (Decimal.render x) else ofFloat x)
  | some (.boolean b) => .ok (ofBoolean kind b)
  | some (.timestamp ts) => .ok (ofTimestamp kind ts)

end Value

end ChangeCapture
