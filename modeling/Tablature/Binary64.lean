/-!
# Correctly rounded binary64 numbers

The non-negative doubles, seen as rational numbers: multiples of a power of two, with 53
significant bits and no bit below `2 ^ -1074`. `nearest` takes a rational number to the double
next to it, and of two equally near ones to the even one; `ofRat?` knows in addition that there
is no double from `2 ^ 1024` on.
-/

namespace Tablature.Binary64

/-- The number of bits of a significand. -/
def precision : Int := 53

/-- The exponent of the smallest positive double. -/
def minExponent : Int := -1074

/-- The power of two with the exponent `e`. -/
def twoPow : Int → Rat
  | .ofNat k => ((1 <<< k : Nat) : Rat)
  | .negSucc k => 1 / ((1 <<< (k + 1) : Nat) : Rat)

/-- The exponent of the largest power of two that is at most `x`, for a positive `x`. -/
def floorLog2 (x : Rat) : Int :=
  let e : Int := (x.num.natAbs.log2 : Int) - (x.den.log2 : Int)
  if x < twoPow e then e - 1 else e

/-- The distance of the doubles around `x`, for a positive `x`. -/
def spacing (x : Rat) : Rat := twoPow (max minExponent (floorLog2 x - (precision - 1)))

/-- The integer nearest to `x`, and of two equally near ones the even one. -/
def roundHalfEven (x : Rat) : Int :=
  let floor := x.floor
  let fraction := x - (floor : Rat)
  if fraction < 1 / 2 then floor
  else if 1 / 2 < fraction then floor + 1
  else if floor % 2 = 0 then floor
  else floor + 1

/-- The double nearest to `x`, with exponents unbounded above; `0` where `x` is not positive. -/
def nearest (x : Rat) : Rat :=
  if x ≤ 0 then 0 else (roundHalfEven (x / spacing x) : Rat) * spacing x

/-- The double nearest to `x`, unless it is too large for one. -/
def ofRat? (x : Rat) : Option Rat :=
  if nearest x < twoPow 1024 then some (nearest x) else none

end Tablature.Binary64
