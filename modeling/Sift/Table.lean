import Sift.Keyed
import Sift.Rejection
import Sift.Text.Identifier

/-!
# Tables

A model is stored in one table with a primary key and typed columns. The names of tables and columns
are written into queries, so all of them must be identifiers.

Operators ask for the type of an attribute of a model through `ColumnTypes`; a table answers for its
own model only.
-/

namespace Sift

/-- Gives the type of an attribute of a model, if it has one. -/
abbrev ColumnTypes := (model name : String) → Option ColumnType

/-- The table of a model. -/
structure Table where
  /-- The model whose rows the table holds. -/
  model : String
  /-- The name of the table. -/
  name : String
  /-- The name of the primary key. -/
  primaryKey : String
  /-- The columns with their types. -/
  columns : Keyed ColumnType

/-- Requires a name to be an identifier. -/
def requireName (kind : NameKind) (name : String) : Except Rejection Unit :=
  if Text.isIdentifier name then .ok () else .error (.invalid (.badName kind name))

namespace Table

/-- A table whose primary key is an integer, unless a column of that name is declared otherwise. -/
def declare (model name primaryKey : String) (columns : List (String × ColumnType)) : Table :=
  ⟨model, name, primaryKey, Keyed.ofList ((primaryKey, .integer) :: columns)⟩

/-- The type of a column, if the table has it. -/
def typeOf? (table : Table) (column : String) : Option ColumnType :=
  table.columns.lookup column

/-- Whether the table has a column. -/
def has (table : Table) (column : String) : Bool :=
  (table.typeOf? column).isSome

/-- The types of the columns, for the table's own model. -/
def types (table : Table) : ColumnTypes := fun model name =>
  if model = table.model then table.typeOf? name else none

/-- Requires the table, the primary key and the columns, in this order, to have proper names. -/
def requireNames (table : Table) : Except Rejection Unit := do
  requireName .table table.name
  requireName .primaryKey table.primaryKey
  (Keyed.keys table.columns).forM (requireName .column)

/-- Requires the table to have a column. -/
def requireColumn (table : Table) (column : String) : Except Rejection Unit :=
  if table.has column then .ok ()
  else .error (.invalid (.missingColumn table.model column))

end Table

end Sift
