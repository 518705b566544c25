import Sift.Binary64.Nearest

/-!
# The shortest decimal of a double

Every double is the nearest double to all numbers of an interval around it. Its shortest decimal is
the one with the fewest digits in that interval, and the nearest to the double among those. For a
number of digits given, the decimals form a grid, and if any point of the grid lies in the interval,
then so does one of the double's two neighbours on the grid; so it suffices to look at these.

Sizes are measured in whole numbers of *ticks*, where a tick is `2 ^ -1074 * 10 ^ -400`: the doubles
and the points of all grids that are looked at are whole numbers of ticks, and the middles between
doubles are whole numbers of half ticks.
-/

namespace Sift

/-- Decimal digits in scientific form: `digits` with a point behind the first one, scaled by ten to
the power `exponent`. -/
structure Scientific where
  /-- The digits; the last one is not `0` unless it is the only one. -/
  digits : List Char
  /-- The power of ten of the first digit. -/
  exponent : Int
deriving DecidableEq, Repr

namespace Binary64

/-- How far the grids reach: `10 ^ -gridDepth` is a whole number of ticks. -/
def gridDepth : Nat := 400

/-- The size of a rank in ticks. -/
def ticks (rank : Nat) : Nat :=
  units rank * Nat.pow 10 gridDepth

/-- The exponent of the first digit of a size that is not zero. -/
def leadingExponent (rank : Nat) : Int :=
  ((Nat.toDigits 10 (ticks rank / unitsPerOne)).length : Int) - 1 - gridDepth

/-- Whether a double of this rank is the nearest to a number of `n` ticks: the number lies between
the middles to the neighbouring ranks. The middles themselves belong to even ranks. -/
def isNearest (rank n : Nat) : Bool :=
  let low := ticks (rank - 1) + ticks rank
  let high := ticks rank + ticks (rank + 1)
  (low < 2 * n && 2 * n < high) || (rank % 2 == 0 && (low == 2 * n || 2 * n == high))

/-- Which of two neighbours on a grid is nearer to a size; the even one if both are equally near. -/
def nearer (size step below : Nat) : Nat :=
  let rest := size - below * step
  if 2 * rest < step || (2 * rest == step && below % 2 == 0) then below else below + 1

/-- The point of a grid that stands for a rank, as a number of steps, if the grid has one. -/
def gridPoint? (rank step : Nat) : Option Nat :=
  let size := ticks rank
  let below := size / step
  match isNearest rank (below * step), isNearest rank ((below + 1) * step) with
  | true, true => some (nearer size step below)
  | true, false => some below
  | false, true => some (below + 1)
  | false, false => none

/-- The digits without the zeros at the end, except the first digit. -/
def trimZeros : List Char → List Char
  | [] => []
  | first :: rest => first :: (rest.reverse.dropWhile (· == '0')).reverse

/-- The grid of decimals with `count` digits around a rank: the length of its step, in ticks. -/
def gridStep (rank count : Nat) : Nat :=
  Nat.pow 10 (leadingExponent rank + 1 - count + gridDepth).toNat * unitsPerOne

/-- A point of the grid with `count` digits, in scientific form. A point with one digit more lies in
the next decade. -/
def scientificOfGrid (rank count point : Nat) : Scientific :=
  let digits := Nat.toDigits 10 point
  ⟨trimZeros digits, leadingExponent rank + digits.length - count⟩

/-- The first grid, from one digit on, that has a point for the rank. Seventeen digits always have
one. -/
def shortestOfRank (rank : Nat) : Scientific :=
  let found := (List.range 17).findSome? fun i =>
    (gridPoint? rank (gridStep rank (i + 1))).map (scientificOfGrid rank (i + 1))
  found.getD ⟨['0'], 0⟩

/-- The shortest decimal of a double without its sign; zero has the single digit `0`. -/
def shortest (x : Binary64) : Scientific :=
  if x.isZero then ⟨['0'], 0⟩ else shortestOfRank x.rank.val

end Binary64

end Sift
