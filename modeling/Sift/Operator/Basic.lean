import Sift.ColumnType

/-!
# Operators

Five operators compare the target of a rule with the rule's parameter. Rules call them by name, some
by more than one; an operator is reported under its first name, and messages about a type it cannot
handle call it by its label.
-/

namespace Sift

/-- How a rule compares its target with its parameter. -/
inductive Operator
  /-- Equal to the parameter, or null. -/
  | equals
  /-- Containing the parameter as a text, in any letter case. -/
  | contains
  /-- Between the least and the greatest value of the parameter. -/
  | within
  /-- At least the parameter. -/
  | atLeast
  /-- At most the parameter. -/
  | atMost
deriving DecidableEq, Repr

namespace Operator

/-- The operators by the names that rules use. -/
def vocabulary : List (String × Operator) :=
  [("is", equals), ("containing", contains), ("within", within), ("between", within),
    ("more_than", atLeast), ("after", atLeast), ("less_than", atMost), ("before", atMost)]

/-- The operator with a name; names are spelled exactly. -/
def ofName? (name : String) : Option Operator :=
  vocabulary.lookup name

/-- The name under which an operator is reported. -/
def name : Operator → String
  | equals => "is"
  | contains => "containing"
  | within => "within"
  | atLeast => "more_than"
  | atMost => "less_than"

/-- What messages call an operator. -/
def label : Operator → String
  | equals => "Exact"
  | contains => "Containment"
  | within => "Range"
  | atLeast => "Greater"
  | atMost => "Lesser"

/-- The types whose values have an order that operators can use. -/
def orderedTypes : List ColumnType :=
  [.datetime, .date, .integer, .float]

/-- The types of columns that an operator applies to, in the order in which they are reported. -/
def applicableTypes : Operator → List ColumnType
  | equals => ColumnType.all
  | contains => [.string, .text]
  | within => orderedTypes
  | atLeast => orderedTypes
  | atMost => orderedTypes

theorem ofName?_name (operator : Operator) : ofName? operator.name = some operator := by
  cases operator <;> decide

/-- Comparing for equality applies to columns of every type. -/
theorem mem_applicableTypes_equals (type : ColumnType) : type ∈ applicableTypes equals :=
  ColumnType.mem_all type

end Operator

end Sift
