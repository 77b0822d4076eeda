import ChangeCapture.Error
import ChangeCapture.Text.Blank
import ChangeCapture.Text.Hex
import ChangeCapture.Text.Search
import ChangeCapture.Text.Utf16
import ChangeCapture.Value.Literal

/-! # Expressions around values -/

namespace ChangeCapture.Expression

/-! ## Failures -/

def noQuotedArgument (expr : List Char) : CaptureError :=
  .schema s!"Expected quoted argument in '{String.ofList expr}'"

def unterminatedArgument (expr : List Char) : CaptureError :=
  .schema s!"Unterminated quoted argument in '{String.ofList expr}'"

def invalidEscape (expr : List Char) : CaptureError :=
  .schema s!"Invalid UNISTR escape in '{String.ofList expr}'"

def invalidRaw (expr : List Char) (fault : Text.Hex.Fault) : CaptureError :=
  .schema s!"Invalid HEXTORAW '{String.ofList expr}': {fault.message}"

/-! ## Calls -/

/-- What stands between the parentheses of a call of a function, whose name may be in any case. The
call begins with the name and an opening parenthesis and ends with a closing one. -/
def callArguments? (name : String) (expr : List Char) : Option (List Char) :=
  let name := name.toList
  if Text.upperAscii (expr.take name.length) = name then
    match expr.drop name.length with
    | '(' :: rest => if rest.getLast? = some ')' then some rest.dropLast else none
    | _ => none
  else none

/-- The first argument of a call, a quoted literal. -/
def firstLiteral (arguments expr : List Char) : Except CaptureError (List Char) :=
  match Text.trimLeft arguments with
  | '\'' :: rest =>
      match Literal.readBody? rest with
      | some body => .ok body
      | none => .error (unterminatedArgument expr)
  | _ => .error (noQuotedArgument expr)

/-! ## Escaped code units -/

/-- The code unit of four characters after a backslash: hexadecimal digits, of which the first may be
a plus sign instead. -/
def readUnit? : List Char → Option Nat
  | '+' :: digits => Text.Hex.readNumber? digits
  | digits => Text.Hex.readNumber? digits

/-- The code units of a text in which a backslash begins an escape: two backslashes for one, or a
backslash and a code unit. -/
def escapedUnits? : List Char → Option (List Nat)
  | [] => some []
  | '\\' :: '\\' :: rest => (escapedUnits? rest).map ('\\'.toNat :: ·)
  | '\\' :: a :: b :: c :: d :: rest => do
      let unit ← readUnit? [a, b, c, d]
      let units ← escapedUnits? rest
      return unit :: units
  | c :: rest =>
      if c = '\\' then none else (escapedUnits? rest).map (Text.Utf16.encodeChar c ++ ·)

/-- The text that is escaped; its code units must pair up. -/
def decodeEscaped? (text : List Char) : Option (List Char) :=
  (escapedUnits? text).bind Text.Utf16.decode?

/-! ## Contents -/

/-- What an expression stands for. -/
inductive Content where
  | text (s : List Char)
  | bytes (b : List UInt8)
  | null
  deriving DecidableEq, Repr

/-- Looks into the calls that redo statements put around values; every other expression stands for
its own text. -/
def content (source : List Char) : Except CaptureError Content :=
  let expr := Text.trim source
  let upper := String.ofList (Text.upperAscii expr)
  let dateCall := callArguments? "TO_DATE" expr <|> callArguments? "TO_TIMESTAMP" expr <|>
    callArguments? "TO_TIMESTAMP_TZ" expr
  match dateCall with
  | some arguments => (firstLiteral arguments expr).map .text
  | none =>
      match callArguments? "UNISTR" expr with
      | some arguments => do
          let escaped ← firstLiteral arguments expr
          match decodeEscaped? escaped with
          | some text => return .text text
          | none => throw (invalidEscape expr)
      | none =>
          match callArguments? "HEXTORAW" expr with
          | some arguments => do
              let digits ← firstLiteral arguments expr
              match Text.Hex.decode (String.ofList (Text.trim digits)) with
              | .ok bytes => return .bytes bytes
              | .error fault => throw (invalidRaw expr fault)
          | none =>
              if upper = "EMPTY_CLOB()" then .ok (.text [])
              else if upper = "EMPTY_BLOB()" then .ok (.bytes [])
              else if upper = "NULL" then .ok .null
              else .ok (.text expr)

end ChangeCapture.Expression
