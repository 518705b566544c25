import Sift.Binary64.Shortest

/-!
# Numbers of JSON

A numeral of JSON is a whole number if it is written as one and fits in 64 bits, with a sign or
without; every other numeral is a double. The two kinds stay apart: `1` and `1.0` are different
numbers with different texts. Whole numbers compare with each other as machine words, with a sign or
without, which comes to their exact order; as soon as a double is involved, both sides compare as
doubles.
-/

namespace Sift

/-- A number of JSON. -/
inductive Number
  /-- A whole number. Numerals give those from `-2 ^ 63` up to `2 ^ 64`. -/
  | integer (value : Int)
  /-- A double. -/
  | float (value : Binary64)
deriving DecidableEq, Repr

namespace Number

/-- The signed rank by which a number compares with a double. -/
def ordinal : Number → Int
  | integer value => Binary64.ordinalOfInt value
  | float value => value.ordinal

/-- The number as a word with a sign, if it is whole and not too large for one. No numeral gives a
whole number that is too small. -/
def signed? : Number → Option Int
  | integer value => if value < Nat.pow 2 63 then some value else none
  | float _ => none

/-- The number as a word without a sign, if it is whole and not negative. No numeral gives a whole
number that is too large. -/
def unsigned? : Number → Option Int
  | integer value => if 0 ≤ value then some value else none
  | float _ => none

/-- How two numbers compare: as words with a sign if both are such, else as words without one, else
a word with a sign is less than one that is too large for a sign, and else both are doubles. -/
def order (a b : Number) : Ordering :=
  match a.signed?, b.signed?, a.unsigned?, b.unsigned? with
  | some m, some n, _, _ => compare m n
  | _, _, some m, some n => compare m n
  | some _, _, _, some _ => .lt
  | _, some _, some _, _ => .gt
  | _, _, _, _ => compare a.ordinal b.ordinal

theorem order_float_left (x : Binary64) (b : Number) :
    (float x).order b = compare x.ordinal b.ordinal := by
  unfold order
  cases b.signed? <;> cases b.unsigned? <;> rfl

theorem order_float_right (a : Number) (x : Binary64) :
    a.order (float x) = compare a.ordinal x.ordinal := by
  unfold order
  cases a.signed? <;> cases a.unsigned? <;> rfl

/-- Whether a number is zero, with either sign. -/
def isZero : Number → Bool
  | integer value => value == 0
  | float value => value.isZero

/-! ## Reading -/

open Numeral

/-- Whether digits may stand in front of the point of a JSON numeral: at least one, and a leading
zero only alone. -/
def isWholePart (digits : List Char) : Bool :=
  match digits with
  | [] => false
  | ['0'] => true
  | first :: _ => first != '0'

/-- Whether the characters behind the whole part of a JSON numeral end it properly. A point needs a
digit behind it; what a letter `e` needs is the matter of `Decimal.exponent?`. -/
def isNumeralTail : List Char → Bool
  | '.' :: c :: _ => isDigit c
  | ['.'] => false
  | _ => true

/-- Whether the form of a numeral is one that JSON allows: a decimal numeral without a plus sign in
front, without superfluous zeros and without a point at either end. -/
def isJsonNumeral (text : List Char) : Bool :=
  let unsigned := if text.head? = some '-' then text.drop 1 else text
  isWholePart (unsigned.takeWhile isDigit) && isNumeralTail (unsigned.dropWhile isDigit)

/-- The whole number that a numeral denotes, if it is written as one, fits in 64 bits and is not the
negative zero, which only a double can hold. -/
def integer64? (text : List Char) : Option Int :=
  (integer? text).filter fun value =>
    if text.head? = some '-' then -Nat.pow 2 63 ≤ value && value < 0 else value < Nat.pow 2 64

/-- The number that a JSON numeral denotes, if it has the right form and is not too large: a whole
number of 64 bits, or else the nearest double. -/
def ofNumeral? (text : List Char) : Option Number :=
  if isJsonNumeral text then
    match integer64? text with
    | some value => some (integer value)
    | none => ((Decimal.ofChars? text).bind Decimal.toBinary64?).map float
  else none

/-! ## Writing -/

/-- Where doubles are written with a plain point: from the first exponent to the second one. Outside
they are written with the letter `e` and the signed exponent. -/
def plainExponents : Int × Int := (-5, 15)

/-- Digits with a point behind the first `count` of them, filled with zeros where they do not reach;
at least one digit stands on each side. -/
def pointAfter (digits : List Char) (count : Nat) : List Char :=
  let whole := digits.take count ++ List.replicate (count - digits.length) '0'
  let fraction := digits.drop count
  whole ++ '.' :: (if fraction.isEmpty then ['0'] else fraction)

/-- Digits behind a zero, a point and as many further zeros as `count` says. -/
def pointBefore (digits : List Char) (count : Nat) : List Char :=
  '0' :: '.' :: (List.replicate count '0' ++ digits)

/-- Digits with a point behind the first one, if there are others. -/
def pointAfterFirst : List Char → List Char
  | first :: second :: rest => first :: '.' :: second :: rest
  | digits => digits

/-- The characters of a number in scientific form. -/
def scientificChars (x : Scientific) : List Char :=
  if x.exponent < plainExponents.1 || plainExponents.2 < x.exponent then
    let sign := if x.exponent < 0 then '-' else '+'
    pointAfterFirst x.digits ++ 'e' :: sign :: Nat.toDigits 10 x.exponent.natAbs
  else if x.exponent < 0 then pointBefore x.digits (x.exponent.natAbs - 1)
  else pointAfter x.digits (x.exponent.toNat + 1)

example : scientificChars ⟨['1'], 15⟩ = "1000000000000000.0".toList := by decide
example : scientificChars ⟨['1'], 16⟩ = "1e+16".toList := by decide
example : scientificChars ⟨['1'], -5⟩ = "0.00001".toList := by decide
example : scientificChars ⟨['1', '5'], -6⟩ = "1.5e-6".toList := by decide

/-- The text of a double: its shortest decimal. -/
def floatText (x : Binary64) : String :=
  String.ofList ((if x.negative then ['-'] else []) ++ scientificChars x.shortest)

/-- The text of a number. -/
def text : Number → String
  | integer value => toString value
  | float value => floatText value

end Number

end Sift
