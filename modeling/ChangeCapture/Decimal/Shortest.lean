import ChangeCapture.Decimal.Binary64

/-! # Shortest decimal text of a binary number -/

namespace ChangeCapture.Decimal

/-! ## Numbers scaled by powers of two and ten -/

/-- Compares `a * 10 ^ e` with `b * 2 ^ q`. -/
def compareScaled (a : Nat) (e : Int) (b : Nat) (q : Int) : Ordering :=
  compare (a * tenTo e.toNat * twoTo (-q).toNat) (b * twoTo q.toNat * tenTo (-e).toNat)

/-- The integer part of `b * 2 ^ q / 10 ^ e`. -/
def floorScaled (b : Nat) (q e : Int) : Nat :=
  b * twoTo q.toNat * tenTo (-e).toNat / (tenTo e.toNat * twoTo (-q).toNat)

/-- The reals that round to a binary number, in units of `2 ^ exponent`. -/
structure RoundingInterval where
  low : Nat
  middle : Nat
  high : Nat
  exponent : Int
  /-- The two ends round to the number as well. -/
  inclusive : Bool

def RoundingInterval.ofBinary64 (x : Binary64) : RoundingInterval :=
  let m := x.significand
  { low := 4 * m - (if x.atBinade then 1 else 2)
    middle := 4 * m
    high := 4 * m + 2
    exponent := x.exponent - 2
    inclusive := m % 2 = 0 }

/-- The decimal `c * 10 ^ e` lies in the interval. -/
def RoundingInterval.contains (i : RoundingInterval) (c : Nat) (e : Int) : Bool :=
  let below := compareScaled c e i.low i.exponent
  let above := compareScaled c e i.high i.exponent
  if i.inclusive then below.isGE && above.isLE else below == .gt && above == .lt

/-! ## Digits -/

/-- The number `0.d₁d₂…dₙ * 10 ^ point`, where `digits` is the number written `d₁d₂…dₙ`. -/
structure DecimalDigits where
  digits : Nat
  point : Int
  deriving DecidableEq, Repr

/-- The least `k` with `b * 2 ^ q < 10 ^ k`, sought upward for `fuel` steps. -/
def leadingPoint (b : Nat) (q : Int) : Nat → Int → Int
  | 0, k => k
  | fuel + 1, k => if compareScaled 1 k b q = .gt then k else leadingPoint b q fuel (k + 1)

/-- The multiple of `10 ^ e` nearest to the middle among those of its two neighbours that lie in the
interval; of two at the same distance the greater one. -/
def nearestOnGrid? (i : RoundingInterval) (e : Int) : Option Nat :=
  let c := floorScaled i.middle i.exponent e
  match i.contains c e, i.contains (c + 1) e with
  | true, true =>
      if (compareScaled (2 * c + 1) e (2 * i.middle) i.exponent) = .gt then some c else some (c + 1)
  | true, false => some c
  | false, true => some (c + 1)
  | false, false => none

/-- Tries `count`, `count + 1`, … digits. -/
def shortestFrom (i : RoundingInterval) (point : Int) : Nat → Nat → DecimalDigits
  | 0, count =>
      let e := point - (count : Int)
      ⟨floorScaled i.middle i.exponent e, point⟩
  | fuel + 1, count =>
      let e := point - (count : Int)
      match nearestOnGrid? i e with
      | some c => if c = tenTo count then ⟨1, point + 1⟩ else ⟨c, point⟩
      | none => shortestFrom i point fuel (count + 1)

/-- The fewest digits that round to the number, and of those the nearest. -/
def shortestDigits (x : Binary64) : DecimalDigits :=
  let i := RoundingInterval.ofBinary64 x
  shortestFrom i (leadingPoint i.middle i.exponent 700 (-330)) 17 1

/-! ## Text -/

/-- Digits with a point where it belongs and never an exponent. -/
def DecimalDigits.positional (d : DecimalDigits) : List Char :=
  let digits := Nat.toDigits 10 d.digits
  if d.point ≤ 0 then ['0', '.'] ++ List.replicate (-d.point).toNat '0' ++ digits
  else
    let whole := d.point.toNat
    if digits.length ≤ whole then digits ++ List.replicate (whole - digits.length) '0'
    else digits.take whole ++ ['.'] ++ digits.drop whole

/-- The text of a number: positional, no point in an integer, the sign of zero kept. -/
def render (x : Binary64) : String :=
  if x.isNaN then "NaN"
  else
    let magnitude :=
      if x.isInfinite then ['i', 'n', 'f']
      else if x.significand = 0 then ['0']
      else (shortestDigits x).positional
    String.ofList (if x.isNegative then '-' :: magnitude else magnitude)

end ChangeCapture.Decimal
