import ChangeCapture.Decimal.Rounding
import ChangeCapture.Json.Basic
import ChangeCapture.Json.Syntax
import ChangeCapture.Text.Integer

/-! # Numbers in JSON text -/

namespace ChangeCapture.Json

open Decimal (Binary64)

/-! ## Significant digits -/

/-- The digits read so far as a 64-bit number times a power of ten. -/
structure Significand where
  value : Nat
  exponent : Int
  deriving DecidableEq, Repr

/-- A digit that still fits into 64 bits is taken in. -/
def Significand.push? (s : Significand) (digit : Nat) : Option Nat :=
  let value := 10 * s.value + digit
  if value < UInt64.size then some value else none

/-- Digits before the point: from the first one that does not fit, each one only counts. -/
def Significand.pushWhole (s : Significand) : List Nat → Significand
  | [] => s
  | d :: rest =>
      match s.push? d with
      | some value => pushWhole { s with value } rest
      | none => { s with exponent := s.exponent + (rest.length + 1 : Nat) }

/-- Digits after the point: from the first one that does not fit, none counts. -/
def Significand.pushFraction (s : Significand) : List Nat → Significand
  | [] => s
  | d :: rest =>
      match s.push? d with
      | some value => pushFraction { value, exponent := s.exponent - 1 } rest
      | none => s

def digitValues (digits : List Char) : List Nat := digits.filterMap Text.digit?

/-! ## Scaling -/

def powerOfTen (n : Nat) : Float := (Binary64.ofRatio (Decimal.tenTo n) 1).toFloat

/-- Divides by `10 ^ n` in steps of at most `10 ^ 308`. -/
def scaleDown (f : Float) (n : Nat) : Float :=
  if n ≤ 308 then f / powerOfTen n
  else if f == 0.0 then f
  else scaleDown (f / powerOfTen 308) (n - 308)
termination_by n
decreasing_by omega

/-- Multiplies by `10 ^ n`, unless that is out of range. -/
def scaleUp? (f : Float) (n : Nat) : Option Float :=
  if n ≤ 308 then
    let g := f * powerOfTen n
    if g.isInf then none else some g
  else if f == 0.0 then some f
  else none

/-- The number of a significand, rounded once when the digits become binary and once by each scaling
step. -/
def Significand.toFloat? (s : Significand) : Option Float :=
  let f := (UInt64.ofNat s.value).toFloat
  if s.exponent < 0 then some (scaleDown f s.exponent.natAbs) else scaleUp? f s.exponent.natAbs

/-! ## Values -/

/-- The value of an exponent below `2 ^ 31`. -/
def exponentValue? (digits : List Char) : Option Nat :=
  (Text.readDecimal? digits).filter (· < 2147483648)

/-- The number with a fraction that is written, if it is in range. -/
def NumberToken.toFloat? (t : NumberToken) : Option Binary64 := do
  let whole := Significand.pushWhole ⟨0, 0⟩ (digitValues t.whole)
  let s := whole.pushFraction (digitValues t.fraction)
  let magnitude ← match t.exponent with
    | none => s.toFloat?
    | some (negative, digits) =>
        match exponentValue? digits with
        | some n =>
            Significand.toFloat? { s with exponent := if negative then s.exponent - n else s.exponent + n }
        | none => if s.value = 0 ∨ negative then some 0.0 else none
  return Binary64.ofFloat (if t.negative then -magnitude else magnitude)

/-- The integer that is written, if it has neither fraction nor exponent, is not minus zero and fits
into 64 bits. -/
def NumberToken.toInt? (t : NumberToken) : Option Int := do
  if t.fraction = [] ∧ t.exponent = none then
    let n ← Text.readDecimal? t.whole
    if t.negative then (if 0 < n ∧ Text.minInt64 ≤ -(n : Int) then some (-(n : Int)) else none)
    else if n < UInt64.size then some n
    else none
  else none

def NumberToken.toJson? (t : NumberToken) : Option Json :=
  match t.toInt? with
  | some n => some (.integer n)
  | none => t.toFloat?.map .float

end ChangeCapture.Json
