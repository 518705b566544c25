import Sift.Sql.Piece

/-!
# Databases

Three databases are served. They agree on most of the language that scopes need; they differ in how
a parameter is written, in how a text is searched for another one, and in how an offset without a
limit is written.
-/

namespace Sift

/-- A database that can run the statements. -/
inductive Database
  | sqlite
  | postgres
  | duckdb
deriving DecidableEq, Repr

/-- A name that no database has, as it was compared. -/
structure UnknownDatabase where
  /-- The name. -/
  name : String

/-- What is answered to a name that no database has. -/
def UnknownDatabase.message (unknown : UnknownDatabase) : String :=
  "Unknown backend: " ++ unknown.name

namespace Database

/-- The name of a database. -/
def name : Database → String
  | sqlite => "sqlite"
  | postgres => "postgres"
  | duckdb => "duckdb"

/-- The database that a text names. Surrounding blanks and letter case do not matter. -/
def ofText (text : String) : Except UnknownDatabase Database :=
  match Text.keyword text with
  | "sqlite" => .ok sqlite
  | "postgres" => .ok postgres
  | "postgresql" => .ok postgres
  | "duckdb" => .ok duckdb
  | other => .error ⟨other⟩

/-- How the parameter with a number is written; numbers start at one. -/
def placeholder (database : Database) (index : Nat) : String :=
  match database with
  | sqlite => "?"
  | postgres => "$" ++ toString index
  | duckdb => "?"

/-- The condition that an expression contains a needle, in any letter case. -/
def contains (database : Database) (expression : String) (needle : Piece) : List Piece :=
  match database with
  | sqlite => [.text ("instr(lower(" ++ expression ++ "), lower("), needle, .text ")) > 0"]
  | postgres =>
    [.text "position(lower(", needle, .text (") IN lower(" ++ expression ++ ")) > 0")]
  | duckdb => [.text ("contains(lower(" ++ expression ++ "), lower("), needle, .text "))"]

/-- The clause that selects a page, unless the page is everything. -/
def pageClause (database : Database) (limit offset : Option Nat) : Option String :=
  match limit, offset with
  | some limit, some offset => some ("LIMIT " ++ toString limit ++ " OFFSET " ++ toString offset)
  | some limit, none => some ("LIMIT " ++ toString limit)
  | none, some offset =>
    match database with
    | sqlite => some ("LIMIT -1 OFFSET " ++ toString offset)
    | postgres => some ("OFFSET " ++ toString offset)
    | duckdb => some ("OFFSET " ++ toString offset)
  | none, none => none

theorem ofText_name (database : Database) : ofText database.name = .ok database := by
  cases database <;> rfl

end Database

end Sift
