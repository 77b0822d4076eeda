/-! # Growing delays between attempts -/

namespace ChangeCapture

/-- Delays that double from `base` up to `max` milliseconds. The number of attempts may be limited;
zero means it is not. -/
structure Backoff where
  base : Nat
  max : Nat
  attempt : Nat := 0
  maxAttempts : Nat := 0
  deriving DecidableEq, Repr

namespace Backoff

/-- The longest time that is represented, in whole milliseconds. -/
def longest : Nat := 18446744073709551615999

/-- The factor of the base, which stops growing at `2 ^ 32 - 1`. -/
def factor (attempt : Nat) : Nat := if attempt < 32 then Nat.pow 2 attempt else UInt32.size - 1

/-- The delay of an attempt that is counted from zero. -/
def delay (backoff : Backoff) (attempt : Nat) : Nat :=
  min (min (backoff.base * factor attempt) longest) backoff.max

/-- The next delay, unless all attempts are used up. -/
def next (backoff : Backoff) : Option Nat × Backoff :=
  if 0 < backoff.maxAttempts ∧ backoff.maxAttempts ≤ backoff.attempt then (none, backoff)
  else (some (backoff.delay backoff.attempt), { backoff with attempt := backoff.attempt + 1 })

def reset (backoff : Backoff) : Backoff := { backoff with attempt := 0 }

end Backoff

end ChangeCapture
