import Sift.Operator.Conditions

/-!
# Rules

A rule tree says how to filter the rows of a model. A leaf applies an operator to an attribute, a
scope rule calls a named scope, a composite combines rules by a conjunction, and a blank rule says
nothing.
-/

namespace Sift

/-- How the rules of a list combine. -/
inductive Conjunction
  /-- All rules must hold. -/
  | exclusive
  /-- At least one rule must hold. -/
  | inclusive
deriving DecidableEq, Repr

namespace Conjunction

/-- The name of a conjunction. -/
def name : Conjunction → String
  | exclusive => "exclusive"
  | inclusive => "inclusive"

/-- A conjunction as it is compared: without surrounding blanks and leading colons, in lower
case. -/
def normalized (written : String) : String :=
  Text.lower (String.ofList ((Text.trimChars written.toList).dropWhile (· == ':')))

/-- The conjunction that a text names. -/
def ofText (written : String) : Except Rejection Conjunction :=
  match normalized written with
  | "exclusive" => .ok exclusive
  | "inclusive" => .ok inclusive
  | _ => .error (.invalid (.unknownConjunction written))

theorem ofText_name (conjunction : Conjunction) : ofText conjunction.name = .ok conjunction := by
  cases conjunction <;> rfl

end Conjunction

/-- A rule. -/
inductive Rule
  /-- Holds of every row. -/
  | blank
  /-- Calls a named scope. -/
  | scope (name : String) (param : Json)
  /-- Applies an operator to an attribute. -/
  | leaf (attr : String) (arguments : Arguments)
  /-- Combines rules. -/
  | composite (rules : List Rule) (conjunction : Conjunction)

/-- The arguments of a named scope. -/
inductive ScopeArguments
  /-- Arguments in order. -/
  | positional (values : List Json)
  /-- Arguments by name. -/
  | keyword (members : Keyed Json)

namespace ScopeArguments

/-- The arguments that a parameter stands for: an object names them, an array lists them, null is
none and any other value is a single one. -/
def ofParam : Json → ScopeArguments
  | .object members => keyword members
  | .array values => positional values
  | .null => positional []
  | value => positional [value]

/-- The arguments in order; none if they are given by name. -/
def values : ScopeArguments → List Json
  | positional values => values
  | keyword _ => []

/-- The argument with a name; none if they are given in order. -/
def named? (arguments : ScopeArguments) (name : String) : Option Json :=
  match arguments with
  | positional _ => none
  | keyword members => members.lookup name

end ScopeArguments

/-- The words for a flag that is not set, in lower case. -/
def unsetWords : List String := ["", "0", "f", "false", "off"]

/-- Whether a flag is set. Absence and null leave it unset; so do false, zero and the words of
`unsetWords`. Any other value sets it. -/
def isFlagSet : Option Json → Bool
  | none => false
  | some .null => false
  | some (.bool value) => value
  | some (.number value) => !value.isZero
  | some (.string text) => !unsetWords.contains (Text.keyword text)
  | some (.array _) => true
  | some (.object _) => true

end Sift
