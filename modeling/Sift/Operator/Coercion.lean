import Sift.ColumnType
import Sift.Json.Basic

/-!
# Coercion of texts

Requests often give numbers and truth values as texts. A text that is compared for equality with a
typed column is read as a value of that type first; a text that denotes no such value has none, and
no row can equal it. Values that are no texts are left as they are.
-/

namespace Sift.Coercion

/-- The greatest whole number of 64 bits with a sign. -/
def maxInteger : Int := (Nat.pow 2 63 : Int) - 1

/-- The least whole number of 64 bits with a sign. -/
def minInteger : Int := -(Nat.pow 2 63 : Int)

/-- A whole number within 64 bits, or the nearest one there is. -/
def clamp (value : Int) : Int :=
  max minInteger (min maxInteger value)

/-- The double that a numeral denotes, unless the text is no numeral or too large. -/
def float? (text : List Char) : Option Binary64 :=
  (Decimal.ofChars? text).bind Decimal.toBinary64?

/-- The whole number that a text denotes. A text that is not a whole number of 64 bits is read as a
double, whose fraction is cut off and which is brought into the range. -/
def integer? (text : List Char) : Option Int :=
  match (Numeral.integer? text).filter fun value => minInteger ≤ value && value ≤ maxInteger with
  | some value => some value
  | none => (float? text).map fun value => clamp value.truncate

/-- The truth value that a word stands for. -/
def boolean? (word : String) : Option Bool :=
  if ["t", "true", "1", "yes", "on"].contains word then some true
  else if ["f", "false", "0", "no", "off"].contains word then some false
  else none

/-- The value of a type that a text denotes. Surrounding blanks do not matter where the text is
read. -/
def ofText? (type : ColumnType) (text : String) : Option Json :=
  match type with
  | .integer =>
    (integer? (Text.trimChars text.toList)).map fun value => .number (.integer value)
  | .float => (float? (Text.trimChars text.toList)).map fun value => .number (.float value)
  | .boolean => (boolean? (Text.keyword text)).map .bool
  | .string => some (.string text)
  | .text => some (.string text)
  | .date => some (.string text)
  | .datetime => some (.string text)

/-- The value of a type that a value stands for. -/
def ofJson? (type : ColumnType) : Json → Option Json
  | .string text => ofText? type text
  | value => some value

end Sift.Coercion
