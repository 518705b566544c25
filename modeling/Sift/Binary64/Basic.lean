/-!
# Doubles

The finite doubles of one sign are numbered in the order of their size: rank `0` is zero, the next
`2 ^ 52 - 1` ranks are the subnormal numbers, and each further block of `2 ^ 52` ranks is one
binade. A finite double is a sign and a rank, so two doubles compare as their signed ranks do. The
exact size of a double is a whole number of *units*, where a unit is the smallest positive double,
`2 ^ -1074`. Infinities and undefined numbers do not occur: what is too large for a double is
refused where it is read.
-/

namespace Sift

/-- The number of finite doubles of one sign: 2047 exponents with `2 ^ 52` fractions each. -/
def doubleRanks : Nat :=
  2047 * Nat.pow 2 52

/-- A finite double. -/
structure Binary64 where
  /-- The sign; zero has one too. -/
  negative : Bool
  /-- The place of the size in the order of all sizes. -/
  rank : Fin doubleRanks
deriving DecidableEq, Repr

namespace Binary64

/-- The number of units in one double of size one. -/
def unitsPerOne : Nat :=
  Nat.pow 2 1074

/-- The size of a rank in units: in the first two blocks ranks are one unit apart, and the distance
doubles from each further block to the next. -/
def units (rank : Nat) : Nat :=
  if rank / Nat.pow 2 52 = 0 then rank
  else (Nat.pow 2 52 + rank % Nat.pow 2 52) * Nat.pow 2 (rank / Nat.pow 2 52 - 1)

/-- The rank with its sign. Doubles compare as their ordinals do, and the two zeros are equal. -/
def ordinal (x : Binary64) : Int :=
  if x.negative then -(x.rank.val : Int) else (x.rank.val : Int)

/-- Whether a double is one of the two zeros. -/
def isZero (x : Binary64) : Bool :=
  x.rank.val == 0

/-- The whole number next to a double on the side of zero. -/
def truncate (x : Binary64) : Int :=
  let size := units x.rank.val / unitsPerOne
  if x.negative then -(size : Int) else (size : Int)

end Binary64

end Sift
