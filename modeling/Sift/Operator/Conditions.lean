import Sift.Operator.Basic
import Sift.Operator.Bounds
import Sift.Operator.Coercion
import Sift.Scope.Basic

/-!
# Conditions of operators

An operator with a parameter becomes conditions on its target: a column of the scope's table or the
expression of a virtual column. Columns are typed, and the operator must apply to the type;
expressions have no type and take any operator.

An inverted operator keeps the rows outside the set that the plain one selects. That set is taken
from all rows of the table, so that the conditions of the scope do not enter it.
-/

namespace Sift

/-- What an operator is applied to. -/
inductive Target
  /-- A column of the table. -/
  | column (name : String)
  /-- The expression of a virtual column. -/
  | expression (sql : String)
deriving DecidableEq, Repr

/-- An operator with its parameter. -/
structure Arguments where
  /-- The operator. -/
  operator : Operator
  /-- What the target is compared with. -/
  param : Json
  /-- Whether the other rows are wanted. -/
  invert : Bool

/-- The arguments without inversion. -/
def Arguments.plain (arguments : Arguments) : Arguments :=
  { arguments with invert := false }

/-- The condition that an operand equals a parameter. Null is looked for as such, and a text that
denotes no value of the type equals nothing. -/
def equality (lhs : Operand) (type : Option ColumnType) (param : Json) : Condition :=
  if param.isNull then .isNull lhs
  else
    let value := match type with
      | some type => Coercion.ofJson? type param
      | none => some param
    match value with
    | some value => .compares lhs .equal value
    | none => .impossible

/-- The conditions that an operator puts on an operand. -/
def Operator.conditions (operator : Operator) (lhs : Operand) (type : Option ColumnType)
    (param : Json) : Except Rejection (List Condition) :=
  match operator with
  | equals => .ok [equality lhs type param]
  | contains => .ok [.contains lhs param]
  | within => do
    let (low, high) ← Bounds.ofParam param
    .ok [.compares lhs .atLeast low, .compares lhs .atMost high]
  | atLeast => .ok [.compares lhs .atLeast param]
  | atMost => .ok [.compares lhs .atMost param]

namespace Target

/-- What the conditions on a target are about, in a table. -/
def operand (table : String) : Target → Operand
  | column name => .column ⟨table, name⟩
  | expression sql => .expression sql

/-- The type of a target, which the operator must apply to. Expressions have none. -/
def type (types : ColumnTypes) (model : String) (operator : Operator) :
    Target → Except Rejection (Option ColumnType)
  | expression _ => .ok none
  | column name =>
    match types model name with
    | none => .error (.unfilterable ("by_" ++ name))
    | some type =>
      if type ∈ operator.applicableTypes then .ok (some type)
      else .error (.mismatch operator.label type)

/-- The conditions that arguments put on a target in the table of a model. -/
def conditions (types : ColumnTypes) (model table : String) (target : Target)
    (arguments : Arguments) : Except Rejection (List Condition) := do
  let type ← target.type types model arguments.operator
  arguments.operator.conditions (target.operand table) type arguments.param

/-- Narrows a scope by arguments on a target. -/
def narrow (types : ColumnTypes) (target : Target) (arguments : Arguments) (scope : Scope) :
    Except Rejection Scope := do
  let conditions ← target.conditions types scope.model scope.table arguments
  if arguments.invert then
    return scope.excluding (scope.cleared.narrow conditions)
  else
    return scope.narrow conditions

end Target

end Sift
