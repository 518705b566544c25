import Sift.Scope.Basic
import Sift.Sql.Database

/-!
# Statements

A scope becomes a statement that selects the primary keys of its rows, each once and in order, and
then takes the page. A scope inside a condition becomes a subquery that selects the primary keys and
nothing more: neither order nor page.
-/

namespace Sift

/-- A column with its qualifier. -/
def Column.text (column : Column) : String :=
  column.qualifier ++ "." ++ column.name

/-- A column, or an expression in parentheses. -/
def Operand.text : Operand → String
  | .column source => source.text
  | .expression sql => "(" ++ sql ++ ")"

/-- The sign of a comparison. -/
def Comparison.sign : Comparison → String
  | .equal => "="
  | .atLeast => ">="
  | .atMost => "<="

/-- A join clause. A qualifier equal to the name of the table needs no mention. -/
def Join.text (join : Join) : String :=
  let target :=
    if join.qualifier = join.table then join.table else join.table ++ " AS " ++ join.qualifier
  "LEFT JOIN " ++ target ++ " ON " ++ join.left.text ++ " = " ++ join.right.text

/-- The selection of the primary key from a table and the tables joined to it. -/
def selection (verb table primaryKey : String) (joins : List Join) : List Piece :=
  .text (verb ++ " " ++ (Column.mk table primaryKey).text ++ " FROM " ++ table) ::
    joins.map fun join => .text (" " ++ join.text)

/-- Conditions with a connective between them. -/
def connect (connective : String) (conditions : List (List Piece)) : List Piece :=
  [Piece.text connective].intercalate conditions

/-- The clause that requires all conditions; no clause for none. -/
def whereClause (conditions : List (List Piece)) : List Piece :=
  if conditions.isEmpty then [] else .text " WHERE " :: connect " AND " conditions

mutual

/-- A condition in the language of a database. -/
def Condition.pieces (database : Database) : Condition → List Piece
  | .compares lhs comparison value =>
    [.text (lhs.text ++ " " ++ comparison.sign ++ " "), .param value]
  | .isNull lhs => [.text (lhs.text ++ " IS NULL")]
  | .contains lhs needle => database.contains lhs.text (.param needle)
  | .impossible => [.text "1=0"]
  | .isAmong lhs scope negated =>
    .text (lhs.text ++ (if negated then " NOT IN (" else " IN (")) ::
      (scope.subquery database ++ [.text ")"])
  | .anyOf [] => [.text "1=0"]
  | .anyOf (first :: rest) =>
    .text "(" ::
      (connect " OR " (first.pieces database :: conditionPieces database rest) ++ [.text ")"])

/-- A scope as a subquery. -/
def Scope.subquery (database : Database) : Scope → List Piece
  | ⟨_, table, primaryKey, joins, conditions, _, _⟩ =>
    selection "SELECT" table primaryKey joins ++
      whereClause (conditionPieces database conditions)

/-- Conditions in the language of a database. -/
def conditionPieces (database : Database) : List Condition → List (List Piece)
  | [] => []
  | condition :: rest => condition.pieces database :: conditionPieces database rest

end

namespace Scope

/-- The clauses that put the rows in order and take the page. -/
def orderAndPage (database : Database) (scope : Scope) : List Piece :=
  .text (" ORDER BY " ++ scope.key.text) ::
    match database.pageClause scope.limit scope.offset with
    | some clause => [.text (" " ++ clause)]
    | none => []

/-- The pieces of the statement for a scope. -/
def statement (database : Database) (scope : Scope) : List Piece :=
  selection "SELECT DISTINCT" scope.table scope.primaryKey scope.joins ++
    whereClause (conditionPieces database scope.conditions) ++ scope.orderAndPage database

/-- The text of the statement for a scope. -/
def sql (database : Database) (scope : Scope) : String :=
  Piece.render database.placeholder (scope.statement database)

/-- The values to bind to the parameters of the statement, in order. -/
def params (database : Database) (scope : Scope) : List Json :=
  Piece.values (scope.statement database)

end Scope

end Sift
