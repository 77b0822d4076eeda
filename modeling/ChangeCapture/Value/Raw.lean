import ChangeCapture.Calendar.Basic
import ChangeCapture.Decimal.Binary64

/-! # Captured values -/

namespace ChangeCapture

/-- A captured value before its column says what it means. -/
inductive RawValue where
  /-- Text from the server. -/
  | text (s : String)
  /-- The body of a quoted literal of a redo statement; a quote in it is written twice. -/
  | literal (body : String)
  /-- An expression of a redo statement as it is written. -/
  | expression (source : String)
  | binary (bytes : List UInt8)
  | integer (n : Int)
  | float (x : Decimal.Binary64)
  | boolean (b : Bool)
  | timestamp (ts : Calendar.DateTime)
  deriving DecidableEq, Repr

/-- The text of a value that is some kind of text. -/
def RawValue.asText : RawValue → Option String
  | .text s | .literal s | .expression s => some s
  | _ => none

/-- The values of a row in the order of its columns. A value is unknown if it is null or was not
captured. -/
abbrev Row := List (Option RawValue)

end ChangeCapture
