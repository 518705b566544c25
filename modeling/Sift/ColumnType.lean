import Sift.Text.Blank

/-!
# Column types

The operators know seven types of columns. A database declares columns in words of its own; a
declaration is recognised by the keywords that occur in it, in any letter case, and the first
matching entry of `declarationKeywords` decides. So `DATETIME` is no date, and a `POINT` is an
integer.
-/

namespace Sift

/-- The type of a column. -/
inductive ColumnType
  | string
  | text
  | integer
  | float
  | date
  | datetime
  | boolean
deriving DecidableEq, Repr

namespace ColumnType

/-- All types, in the order in which they are reported. -/
def all : List ColumnType :=
  [string, integer, date, datetime, float, boolean, text]

/-- The name of a type. -/
def name : ColumnType → String
  | string => "string"
  | text => "text"
  | integer => "integer"
  | float => "float"
  | date => "date"
  | datetime => "datetime"
  | boolean => "boolean"

/-- The type with a name; names are spelled exactly. -/
def ofName? (name : String) : Option ColumnType :=
  all.find? fun type => type.name == name

/-- Whether a type holds text of any kind. -/
def holdsText : ColumnType → Bool
  | string => true
  | text => true
  | _ => false

/-- The keywords by which a declaration is recognised; earlier entries come first. -/
def declarationKeywords : List (List String × ColumnType) :=
  [(["DATETIME", "TIMESTAMP"], datetime),
    (["DATE"], date),
    (["BOOL"], boolean),
    (["INT"], integer),
    (["CHAR", "CLOB", "STRING"], string),
    (["TEXT"], text),
    (["REAL", "FLOA", "DOUB", "NUMERIC", "DECIMAL"], float)]

/-- The type that a database's declaration of a column stands for, if it is one of the seven. -/
def ofDeclaration? (declaration : String) : Option ColumnType :=
  let written := (Text.upper declaration).toList
  (declarationKeywords.find? fun entry =>
    entry.1.any fun keyword => Text.occursIn keyword.toList written).map Prod.snd

theorem mem_all (type : ColumnType) : type ∈ all := by
  cases type <;> decide

theorem ofName?_name (type : ColumnType) : ofName? type.name = some type := by
  cases type <;> decide

end ColumnType

end Sift
