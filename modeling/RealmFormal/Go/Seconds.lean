import RealmFormal.Go.Float
import Mathlib.Algebra.Order.Field.Rat

/-!
# Durations as floating-point seconds

`float64` numbers that are no integers, as rational numbers: a quotient or a sum is
rounded to 53 significant bits, to nearest, ties to even. The numbers here are far
from the ends of the range. `time.Duration.Seconds` and the seconds of a timestamp
are computed with them.
-/

namespace Go
set_option autoImplicit false

/-- The integer nearest to `a / b`, and of two equally near the even one. -/
def nearest (a b : Nat) : Nat :=
  if 2 * (a % b) < b ∨ 2 * (a % b) = b ∧ a / b % 2 = 0 then a / b else a / b + 1

/-- The exponent of the last of 53 bits of `n / d`. -/
def exponentOf (n d : Nat) : Int :=
  let e : Int := (Nat.log2 n : Int) - Nat.log2 d - 52
  if n * 2 ^ (-e).toNat < 2 ^ 52 * (d * 2 ^ e.toNat) then e - 1 else e

def roundQuotient (n d : Nat) : Rat :=
  let e := exponentOf n d
  mkRat (nearest (n * 2 ^ (-e).toNat) (d * 2 ^ e.toNat) * 2 ^ e.toNat : Nat) (2 ^ (-e).toNat)

/-- The `float64` number nearest to `q`. -/
def float64Rat (q : Rat) : Rat :=
  if q = 0 then 0
  else if q < 0 then -roundQuotient q.num.natAbs q.den
  else roundQuotient q.num.natAbs q.den

/-- Nanoseconds of a second. -/
def nanos : Int := 1000000000

/-- `Seconds` of a duration in nanoseconds. -/
def durationSeconds (d : Int) : Rat :=
  float64Rat ((float64 (d.tdiv nanos) : Rat) +
    float64Rat ((float64 (d.tmod nanos) : Rat) / (nanos : Rat)))

/-- `float64(t.UnixNano()) / 1e9` -/
def unixSeconds (nano : Int) : Rat := float64Rat ((float64 nano : Rat) / (nanos : Rat))

end Go
