/-! # UTF-16 code units -/

namespace ChangeCapture.Text.Utf16

/-- The first half of a character outside the basic plane. -/
def isHigh (unit : Nat) : Bool := 0xD800 ≤ unit ∧ unit ≤ 0xDBFF

/-- The second half of a character outside the basic plane. -/
def isLow (unit : Nat) : Bool := 0xDC00 ≤ unit ∧ unit ≤ 0xDFFF

/-- One or two code units for a character. -/
def encodeChar (c : Char) : List Nat :=
  let n := c.toNat
  if n < 0x10000 then [n]
  else [0xD800 + (n - 0x10000) / 0x400, 0xDC00 + (n - 0x10000) % 0x400]

def encode (text : List Char) : List Nat := text.flatMap encodeChar

/-- The character of a first and a second half. -/
def pair (high low : Nat) : Char := Char.ofNat (0x10000 + (high - 0xD800) * 0x400 + (low - 0xDC00))

/-- The characters of some code units. Every half must belong to a pair. -/
def decode? : List Nat → Option (List Char)
  | [] => some []
  | [n] => if isHigh n ∨ isLow n then none else some [Char.ofNat n]
  | n :: m :: rest =>
      if isHigh n then
        if isLow m then (decode? rest).map (pair n m :: ·) else none
      else if isLow n then none
      else (decode? (m :: rest)).map (Char.ofNat n :: ·)

end ChangeCapture.Text.Utf16
