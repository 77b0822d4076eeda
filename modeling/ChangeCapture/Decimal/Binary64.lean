/-! # Binary floating-point numbers -/

namespace ChangeCapture.Decimal

/-! ## Powers -/

def twoTo (n : Nat) : Nat := Nat.pow 2 n

def tenTo (n : Nat) : Nat := Nat.pow 10 n

/-! ## Numbers -/

/-- A number in the 64-bit binary format, given by its bits. -/
structure Binary64 where
  bits : UInt64
  deriving DecidableEq, Repr

namespace Binary64

def ofFloat (f : Float) : Binary64 := ⟨f.toBits⟩

def toFloat (x : Binary64) : Float := Float.ofBits x.bits

/-! ## Fields -/

def isNegative (x : Binary64) : Bool := x.bits.toNat / twoTo 63 = 1

/-- The eleven bits that hold the exponent. -/
def exponentField (x : Binary64) : Nat := x.bits.toNat / twoTo 52 % 2048

/-- The fifty-two bits after the leading one. -/
def fraction (x : Binary64) : Nat := x.bits.toNat % twoTo 52

/-! ## Classes -/

def isNaN (x : Binary64) : Bool := x.exponentField = 2047 ∧ x.fraction ≠ 0

def isInfinite (x : Binary64) : Bool := x.exponentField = 2047 ∧ x.fraction = 0

def isFinite (x : Binary64) : Bool := x.exponentField ≠ 2047

/-! ## Magnitude -/

/-- The natural number `m` of the magnitude `m * 2 ^ q`. -/
def significand (x : Binary64) : Nat :=
  if x.exponentField = 0 then x.fraction else twoTo 52 + x.fraction

/-- The integer `q` of the magnitude `m * 2 ^ q`. -/
def exponent (x : Binary64) : Int :=
  if x.exponentField = 0 then -1074 else (x.exponentField : Int) - 1075

/-- The number below this one is only half as far away as the number above it. -/
def atBinade (x : Binary64) : Bool := x.fraction = 0 ∧ 1 < x.exponentField

end Binary64

end ChangeCapture.Decimal
