import ChangeCapture.Text.Hex
import ChangeCapture.Text.Search

/-! # Universally unique identifiers -/

namespace ChangeCapture.Text

/-- An identifier of sixteen bytes. -/
structure Uuid where
  bytes : List UInt8
  deriving DecidableEq, Repr

namespace Uuid

/-! ## Writing -/

/-- The hexadecimal digits in groups of 8, 4, 4, 4 and 12. -/
def render (id : Uuid) : String :=
  let group (start count : Nat) := Hex.encodeLower ((id.bytes.drop start).take count)
  String.intercalate "-" [group 0 4, group 4 2, group 6 2, group 8 2, group 10 6]

/-! ## Reading -/

/-- The byte of two digits of either case. -/
def readByte? (high low : Char) : Option UInt8 := (Hex.readNumber? [high, low]).map UInt8.ofNat

def readBytes? : List Char → Option (List UInt8)
  | [] => some []
  | [_] => none
  | high :: low :: rest => do
      let byte ← readByte? high low
      let bytes ← readBytes? rest
      return byte :: bytes

/-- Thirty-two digits. -/
def readSimple? (text : List Char) : Option Uuid :=
  if text.length = 32 then (readBytes? text).map Uuid.mk else none

/-- The digits of five groups with hyphens between them. -/
def readHyphenated? (text : List Char) : Option Uuid :=
  let hyphens := [8, 13, 18, 23]
  if text.length = 36 ∧ hyphens.all fun i => text[i]? = some '-' then
    readSimple? ((text.zipIdx.filter fun p => p.2 ∉ hyphens).map Prod.fst)
  else none

def urnStart : List Char := "urn:uuid:".toList

/-- The four written forms: plain digits, hyphenated, hyphenated in braces and as a resource name, which
is written in either case. -/
def read? (text : List Char) : Option Uuid :=
  match text.length with
  | 32 => readSimple? text
  | 36 => readHyphenated? text
  | 38 =>
      if text.head? = some '\x7b' ∧ text.getLast? = some '\x7d' then
        readHyphenated? ((text.drop 1).take 36)
      else none
  | 45 => if lowerAscii (text.take 9) = urnStart then readHyphenated? (text.drop 9) else none
  | _ => none

/-- The identifier stored with its first three groups lowest byte first. -/
def ofMixedEndian (bytes : List UInt8) : Uuid :=
  ⟨(bytes.take 4).reverse ++ ((bytes.drop 4).take 2).reverse ++ ((bytes.drop 6).take 2).reverse ++
    bytes.drop 8⟩

end Uuid

end ChangeCapture.Text
