import Sift.Binary64.Basic
import Sift.Decimal

/-!
# The nearest double

A number that is no double is rounded to the nearest one; of two that are equally near, the one
whose rank is even is taken. Numerals that round past the largest double have no double.
-/

namespace Sift

namespace Binary64

/-- The rank nearest to `numerator / denominator`, as if there were ranks without end. The candidate
`low` is the fraction cut off at 53 binary digits (or at one unit), and `rest` is what was cut. -/
def nearestRank (numerator denominator : Nat) : Nat :=
  let scaled := numerator * unitsPerOne
  let shift := (scaled / denominator).log2 - 52
  let step := denominator * Nat.pow 2 shift
  let low := shift * Nat.pow 2 52 + scaled / step
  let rest := scaled % step
  if 2 * rest < step || (2 * rest == step && low % 2 == 0) then low else low + 1

/-- The signed rank nearest to a whole number: whole numbers and doubles compare by it. -/
def ordinalOfInt (n : Int) : Int :=
  if n < 0 then -(nearestRank n.natAbs 1 : Int) else (nearestRank n.natAbs 1 : Int)

end Binary64

namespace Decimal

/-- The rank nearest to the size of a numeral. Sizes from `10 ^ 400` on are past every double, and
sizes below `10 ^ -400` are less than half a unit, so that no larger power is ever needed. -/
def nearestRank (x : Decimal) : Nat :=
  if x.digits = 0 then 0
  else if 400 ≤ x.exponent then doubleRanks
  else if (x.digits.log2 : Int) + 1 + x.exponent < -400 then 0
  else Binary64.nearestRank (x.digits * Nat.pow 10 x.exponent.toNat)
    (Nat.pow 10 (-x.exponent).toNat)

/-- The double nearest to a numeral, unless it is too large for one. -/
def toBinary64? (x : Decimal) : Option Binary64 :=
  if h : x.nearestRank < doubleRanks then some ⟨x.negative, x.nearestRank, h⟩ else none

end Decimal

end Sift
