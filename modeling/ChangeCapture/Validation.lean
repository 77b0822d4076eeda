import ChangeCapture.Statement.Parser
import ChangeCapture.Text.Escaped

/-! # Valid names and sizes -/

namespace ChangeCapture

/-- Why a name or a size is not accepted. -/
inductive Invalidity where
  | emptyCaptureInstance
  | captureInstanceTooLong (bytes : Nat)
  | captureInstanceCharacters (name : String)
  | emptyIdentifier
  | identifierTooLong (characters : Nat)
  | controlCharacter (name : String) (c : Char)
  | statementTooLarge (bytes : Nat)
  deriving DecidableEq, Repr

namespace Validation

/-! ## Limits -/

/-- The bytes that the name of a capture instance may have. -/
def maxCaptureInstance : Nat := 100

/-- The characters that an identifier may have. -/
def maxIdentifier : Nat := 128

end Validation

open Validation in
def Invalidity.message : Invalidity → String
  | .emptyCaptureInstance => "Capture instance cannot be empty"
  | .captureInstanceTooLong bytes =>
      s!"Capture instance too long: {bytes} chars (max: {maxCaptureInstance})"
  | .captureInstanceCharacters name =>
      s!"Invalid capture instance '{name}': must start with letter/underscore and contain only " ++
        "alphanumeric characters and underscores"
  | .emptyIdentifier => "Identifier cannot be empty"
  | .identifierTooLong characters =>
      s!"Identifier too long: {characters} chars (max: {maxIdentifier})"
  | .controlCharacter name c =>
      s!"Invalid identifier '{Text.escaped name}': contains control character {Text.quotedChar c}"
  | .statementTooLarge bytes => Statement.tooLarge bytes

namespace Validation

/-! ## Checks -/

/-- Letters of ASCII, digits and underscores, the first of them no digit. -/
def isPlainName (name : List Char) : Bool :=
  name.head?.any (fun c => c.isAlpha || c == '_') && name.all fun c => c.isAlphanum || c == '_'

/-- The name of a capture instance becomes part of the name of a function, so that it holds nothing
that would have to be quoted. -/
def captureInstance (name : String) : Except Invalidity Unit :=
  if name.isEmpty then .error .emptyCaptureInstance
  else if maxCaptureInstance < name.utf8ByteSize then
    .error (.captureInstanceTooLong name.utf8ByteSize)
  else if isPlainName name.toList then .ok ()
  else .error (.captureInstanceCharacters name)

/-- The control characters of both halves of Latin-1. -/
def isControl (c : Char) : Bool := c.toNat < 0x20 || (0x7F ≤ c.toNat && c.toNat < 0xA0)

/-- An identifier is quoted, so that it only needs to be printable. -/
def identifier (name : String) : Except Invalidity Unit :=
  if name.isEmpty then .error .emptyIdentifier
  else if maxIdentifier < name.length then .error (.identifierTooLong name.length)
  else
    match name.toList.find? isControl with
    | some c => .error (.controlCharacter name c)
    | none => .ok ()

def statementSize (bytes : Nat) : Except Invalidity Unit :=
  if Statement.maxBytes < bytes then .error (.statementTooLarge bytes) else .ok ()

end Validation

end ChangeCapture
