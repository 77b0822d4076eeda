import ChangeCapture.Position.Basic

/-! # Log sequence numbers -/

namespace ChangeCapture.Lsn

/-- The number made of a log file, a block in it and a slot in that. -/
def ofParts (file block : UInt32) (slot : UInt16) : Lsn :=
  Position.ofNat ((file.toNat * UInt32.size + block.toNat) * UInt16.size + slot.toNat)

/-- Log file, block and slot in hexadecimal with colons between them. -/
def display (p : Lsn) : String :=
  match p.value with
  | none => "NULL"
  | some v =>
      let n := v.toNat
      String.ofList (Text.upperHexPadded 8 (n / UInt16.size / UInt32.size) ++ [':'] ++
        Text.upperHexPadded 8 (n / UInt16.size) ++ [':'] ++ Text.upperHexPadded 4 n)

end ChangeCapture.Lsn
