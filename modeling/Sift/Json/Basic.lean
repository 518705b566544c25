import Sift.Keyed
import Sift.Json.Number

/-!
# JSON values

The operands of rules are arbitrary JSON values, and rules themselves arrive as JSON. The members of
an object keep their order, and each name occurs once in every value that is read.
-/

namespace Sift

/-- A JSON value. -/
inductive Json
  | null
  | bool (value : Bool)
  | number (value : Number)
  | string (text : String)
  | array (elements : List Json)
  | object (members : List (String × Json))
deriving Inhabited, Repr

namespace Json

/-- Whether a value is `null`. -/
def isNull : Json → Bool
  | null => true
  | _ => false

/-- The text of a string value. -/
def string? : Json → Option String
  | string text => some text
  | _ => none

/-- The whole number of a value. -/
def integer? : Json → Option Int
  | number (.integer value) => some value
  | _ => none

end Json

end Sift
