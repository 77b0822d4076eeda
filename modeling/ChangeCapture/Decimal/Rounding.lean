import ChangeCapture.Decimal.Binary64

/-! # The binary number nearest to a quotient -/

namespace ChangeCapture.Decimal

/-- A quotient rounded to the nearest integer, halfway between two to the even one. -/
def roundDiv (num den : Nat) : Nat :=
  let quotient := num / den
  let rest := num % den
  if 2 * rest < den then quotient
  else if den < 2 * rest then quotient + 1
  else quotient + quotient % 2

/-- The least exponent of a last place. -/
def minPlace : Int := -1074

/-- The exponent of the last of the 53 places that a quotient is rounded to, never below the least. -/
def lastPlace (num den : Nat) : Int :=
  let place : Int := (num.log2 : Int) - (den.log2 : Int) - 52
  let short := num * twoTo (-place).toNat < den * twoTo place.toNat * twoTo 52
  max (if short then place - 1 else place) minPlace

/-- The binary number nearest to a positive quotient, halfway between two the one whose last place is
even. A magnitude that is too large becomes infinite. -/
def Binary64.ofRatio (num den : Nat) : Binary64 :=
  let place := lastPlace num den
  let significand := roundDiv (num * twoTo (-place).toNat) (den * twoTo place.toNat)
  let bits := (place - minPlace).toNat * twoTo 52 + significand
  ⟨UInt64.ofNat (min bits (2047 * twoTo 52))⟩

def Binary64.negate (x : Binary64) : Binary64 := ⟨x.bits ^^^ 0x8000000000000000⟩

end ChangeCapture.Decimal
