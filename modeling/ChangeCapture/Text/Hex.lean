import ChangeCapture.Text.Escaped

/-! # Bytes in hexadecimal -/

namespace ChangeCapture.Text.Hex

/-! ## Writing -/

def encodeWith (digit : Nat → Char) (bytes : List UInt8) : String :=
  String.ofList (bytes.flatMap fun b => [digit (b.toNat / 16), digit (b.toNat % 16)])

/-- Two lower-case digits for each byte. -/
def encodeLower (bytes : List UInt8) : String := encodeWith lowerHexDigit bytes

/-- Two upper-case digits for each byte. -/
def encodeUpper (bytes : List UInt8) : String := encodeWith upperHexDigit bytes

/-! ## Reading -/

/-- Why a text does not denote bytes. -/
inductive Fault where
  /-- The text has an odd number of digits. -/
  | oddLength
  /-- The byte at an index is no digit. -/
  | invalidByte (byte : UInt8) (index : Nat)
  deriving DecidableEq, Repr

def Fault.message : Fault → String
  | .oddLength => "Odd number of digits"
  | .invalidByte byte index =>
      s!"Invalid character {quotedChar (Char.ofNat byte.toNat)} at position {index}"

/-- The value of a digit of either case, given as a byte. -/
def digitValue? (byte : UInt8) : Option Nat :=
  let n := byte.toNat
  if 0x30 ≤ n ∧ n ≤ 0x39 then some (n - 0x30)
  else if 0x41 ≤ n ∧ n ≤ 0x46 then some (n - 0x41 + 10)
  else if 0x61 ≤ n ∧ n ≤ 0x66 then some (n - 0x61 + 10)
  else none

/-- The value of a digit of either case. -/
def charValue? (c : Char) : Option Nat :=
  if c.toNat < 128 then digitValue? (UInt8.ofNat c.toNat) else none

/-- The number that some digits write. -/
def readNumber? (digits : List Char) : Option Nat :=
  (digits.mapM charValue?).map fun values => values.foldl (fun n v => 16 * n + v) 0

/-- Reads pairs of digits; `index` is the place of the first of them. -/
def decodePairs : Nat → List UInt8 → Except Fault (List UInt8)
  | _, [] => .ok []
  | _, [_] => .error .oddLength
  | index, high :: low :: rest =>
      match digitValue? high with
      | none => .error (.invalidByte high index)
      | some h =>
          match digitValue? low with
          | none => .error (.invalidByte low (index + 1))
          | some l => do
              let bytes ← decodePairs (index + 2) rest
              return UInt8.ofNat (16 * h + l) :: bytes

/-- Reads digits of either case, two for each byte. -/
def decode (text : String) : Except Fault (List UInt8) :=
  let bytes := text.toUTF8.toList
  if bytes.length % 2 = 1 then .error .oddLength else decodePairs 0 bytes

end ChangeCapture.Text.Hex
