/-! # Decimal integers -/

namespace ChangeCapture.Text

/-! ## Digits -/

/-- The value of an ASCII digit. -/
def digit? (c : Char) : Option Nat :=
  if '0' ≤ c ∧ c ≤ '9' then some (c.toNat - '0'.toNat) else none

/-- The value of a list of ASCII digits read after the digits of `value`. -/
def readDigits (value : Nat) : List Char → Option Nat
  | [] => some value
  | c :: rest => (digit? c).bind fun d => readDigits (10 * value + d) rest

/-- One or more ASCII digits. -/
def readDecimal? : List Char → Option Nat
  | [] => none
  | text => readDigits 0 text

/-! ## Bounded integers -/

/-- A natural number of at most `max`, with an optional plus sign. -/
def readNat? (max : Nat) (text : List Char) : Option Nat :=
  let body := match text with
    | '+' :: rest => rest
    | _ => text
  (readDecimal? body).filter (· ≤ max)

/-- The least signed 64-bit integer. -/
def minInt64 : Int := -9223372036854775808

/-- The greatest signed 64-bit integer. -/
def maxInt64 : Int := 9223372036854775807

/-- A signed 64-bit integer with an optional sign. -/
def readInt64? (text : List Char) : Option Int :=
  let value : Option Int := match text with
    | '-' :: rest => (readDecimal? rest).map fun n => -(n : Int)
    | '+' :: rest => (readDecimal? rest).map Int.ofNat
    | _ => (readDecimal? text).map Int.ofNat
  value.filter fun n => minInt64 ≤ n && n ≤ maxInt64

/-! ## Digits of a base -/

/-- The digit of value `n < 16`, in lower case. -/
def lowerHexDigit (n : Nat) : Char := Nat.digitChar n

/-- The digit of value `n < 16`, in upper case. -/
def upperHexDigit (n : Nat) : Char :=
  if n < 10 then Char.ofNat ('0'.toNat + n) else Char.ofNat ('A'.toNat + (n - 10))

/-- The shortest hexadecimal numeral, in lower case. -/
def lowerHex (n : Nat) : List Char := Nat.toDigits 16 n

/-- The last `width` hexadecimal digits of `n`, in upper case. -/
def upperHexPadded : Nat → Nat → List Char
  | 0, _ => []
  | width + 1, n => upperHexPadded width (n / 16) ++ [upperHexDigit (n % 16)]

/-- The last `width` decimal digits of `n`. -/
def decimalPadded : Nat → Nat → List Char
  | 0, _ => []
  | width + 1, n => decimalPadded width (n / 10) ++ [Nat.digitChar (n % 10)]

end ChangeCapture.Text
