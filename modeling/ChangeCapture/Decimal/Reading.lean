import ChangeCapture.Decimal.Rounding
import ChangeCapture.Text.Integer

/-! # Reading decimal numbers -/

namespace ChangeCapture.Decimal

/-! ## Numerals -/

/-- A decimal numeral: the magnitude is `digits * 10 ^ exponent`. -/
structure Numeral where
  negative : Bool
  digits : Nat
  exponent : Int
  deriving DecidableEq, Repr

/-- What a text of a number stands for. -/
inductive NumberText where
  | numeral (n : Numeral)
  | infinity (negative : Bool)
  | notANumber
  deriving DecidableEq, Repr

/-- The digits at the front and what follows them. -/
def spanDigits (text : List Char) : List Char × List Char := text.span Char.isDigit

/-- A sign at the front, if there is one, and what follows it. -/
def takeSign : List Char → Bool × List Char
  | '-' :: rest => (true, rest)
  | '+' :: rest => (false, rest)
  | text => (false, text)

/-- An exponent mark of either case with a signed integer after it, or nothing. -/
def readExponent? : List Char → Option Int
  | [] => some 0
  | c :: rest =>
      if c = 'e' ∨ c = 'E' then
        let (negative, digits) := takeSign rest
        (Text.readDecimal? digits).map fun n => if negative then -(n : Int) else n
      else none

/-- Digits with an optional point before, among or after them, and an optional exponent. -/
def readUnsigned? (negative : Bool) (text : List Char) : Option Numeral := do
  let (whole, afterWhole) := spanDigits text
  let (part, afterPart) := match afterWhole with
    | '.' :: rest => spanDigits rest
    | rest => ([], rest)
  let digits ← Text.readDecimal? (whole ++ part)
  let exponent ← readExponent? afterPart
  return { negative, digits, exponent := exponent - (part.length : Int) }

/-- A signed numeral, or one of the words for infinity and for no number in any case. -/
def readNumberText? (text : List Char) : Option NumberText :=
  let (negative, body) := takeSign text
  let word := String.ofList (body.map Char.toLower)
  if word = "nan" then some .notANumber
  else if word = "inf" ∨ word = "infinity" then some (.infinity negative)
  else (readUnsigned? negative body).map .numeral

/-! ## Values -/

def infinity (negative : Bool) : Binary64 :=
  if negative then ⟨0xFFF0000000000000⟩ else ⟨0x7FF0000000000000⟩

def zero (negative : Bool) : Binary64 :=
  if negative then ⟨0x8000000000000000⟩ else ⟨0⟩

/-- The binary number nearest to a numeral. Magnitudes from `10 ^ 310` on are infinite, those below
`10 ^ -330` are zero. -/
def Numeral.toBinary64 (n : Numeral) : Binary64 :=
  if n.digits = 0 then zero n.negative
  else
    let point := (Nat.toDigits 10 n.digits).length + n.exponent
    if 310 < point then infinity n.negative
    else if point < -330 then zero n.negative
    else
      let magnitude :=
        Binary64.ofRatio (n.digits * tenTo n.exponent.toNat) (tenTo (-n.exponent).toNat)
      if n.negative then magnitude.negate else magnitude

def NumberText.toBinary64 : NumberText → Binary64
  | .numeral n => n.toBinary64
  | .infinity negative => Decimal.infinity negative
  | .notANumber => ⟨0x7FF8000000000000⟩

/-- The number that a text stands for. -/
def read? (text : List Char) : Option Binary64 := (readNumberText? text).map NumberText.toBinary64

end ChangeCapture.Decimal
