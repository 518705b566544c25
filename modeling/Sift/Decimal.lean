import Sift.Text.Blank

/-!
# Decimal numerals

Numbers arrive as text: the limits of the environment, the operands of a filter, the numerals of
JSON. Three readers share one notion of digits:

* `natural` reads a count below a bound and says what is wrong with a text that is none;
* `integer?` reads a whole number with an optional sign;
* `Decimal.ofChars?` reads a numeral with an optional fraction and exponent, exactly, as
  `digits * 10 ^ exponent`.
-/

namespace Sift

namespace Numeral

/-- Whether a character is one of the ten ASCII digits. -/
def isDigit (c : Char) : Bool :=
  '0' ≤ c && c ≤ '9'

/-- The value of an ASCII digit. -/
def digitValue (c : Char) : Nat :=
  c.toNat - '0'.toNat

/-- The number that a run of digits denotes. -/
def value (digits : List Char) : Nat :=
  digits.foldl (fun n c => 10 * n + digitValue c) 0

/-- Splits a sign off; a numeral without a sign is not negative. -/
def splitSign : List Char → Bool × List Char
  | '-' :: rest => (true, rest)
  | '+' :: rest => (false, rest)
  | text => (false, text)

/-- What keeps a text from being a count. -/
inductive Fault
  /-- There is nothing to read. -/
  | empty
  /-- A character is no digit, or a sign stands alone. -/
  | invalidDigit
  /-- The number reaches the bound. -/
  | tooLarge
deriving DecidableEq, Repr

/-- The wording of a fault. -/
def Fault.message : Fault → String
  | .empty => "cannot parse integer from empty string"
  | .invalidDigit => "invalid digit found in string"
  | .tooLarge => "number too large to fit in target type"

/-- Takes one more digit into a count below `bound`. -/
def appendDigit (bound n : Nat) (c : Char) : Except Fault Nat :=
  if isDigit c then
    if 10 * n + digitValue c < bound then .ok (10 * n + digitValue c) else .error .tooLarge
  else .error .invalidDigit

/-- A count below `bound`: digits after an optional plus sign. The first fault from the left
counts. -/
def natural (bound : Nat) : List Char → Except Fault Nat
  | [] => .error .empty
  | ['+'] => .error .invalidDigit
  | '+' :: digits => digits.foldlM (appendDigit bound) 0
  | digits => digits.foldlM (appendDigit bound) 0

/-- A whole number: one or more digits after an optional sign. -/
def integer? (text : List Char) : Option Int :=
  let (negative, digits) := splitSign text
  if digits.isEmpty || !digits.all isDigit then none
  else if negative then some (-(value digits : Int)) else some (value digits : Int)

end Numeral

/-- A decimal numeral: `digits * 10 ^ exponent`, below zero if `negative`. The sign of zero is
kept. -/
structure Decimal where
  /-- Whether a minus sign stands in front. -/
  negative : Bool
  /-- The number that all digits, before and after the point, form together. -/
  digits : Nat
  /-- The power of ten that scales them. -/
  exponent : Int
deriving DecidableEq, Repr

namespace Decimal

open Numeral

/-- The exponent at the end of a numeral: nothing, or a letter and a whole number. -/
def exponent? : List Char → Option Int
  | [] => some 0
  | c :: rest => if c = 'e' || c = 'E' then integer? rest else none

/-- The digits behind the point, if there is one, and the rest of the numeral. -/
def splitFraction : List Char → List Char × List Char
  | '.' :: rest => rest.span isDigit
  | text => ([], text)

/-- Reads an optional sign, digits with an optional point among or around them, and an optional
exponent. At least one digit must stand before or behind the point. -/
def ofChars? (text : List Char) : Option Decimal :=
  let (negative, unsigned) := splitSign text
  let (whole, rest) := unsigned.span isDigit
  let (fraction, tail) := splitFraction rest
  if whole.isEmpty && fraction.isEmpty then none
  else (exponent? tail).map fun exponent =>
    ⟨negative, value (whole ++ fraction), exponent - fraction.length⟩

end Decimal

end Sift
