import Sift.ColumnType
import Sift.Json.Printer
import Sift.Text.Quoted

/-!
# Rejections

A request that cannot be served is answered with one of five kinds of rejection. Each kind holds the
cause as data; the wording is in `Rejection.message` and nowhere else. All kinds but one blame the
input: a missing association is a fault of the declaration.
-/

namespace Sift

/-- What a name that must be an identifier names. -/
inductive NameKind
  | table
  | primaryKey
  | column
  | attr
  | virtualColumn
  | scope
  | association
  | foreignKey
deriving DecidableEq, Repr

/-- What messages call a kind of name. -/
def NameKind.label : NameKind → String
  | table => "table"
  | primaryKey => "primary key"
  | column => "column"
  | attr => "attribute"
  | virtualColumn => "alias"
  | scope => "scope"
  | association => "association"
  | foreignKey => "foreign key"

/-- Why rules or a declaration are invalid. -/
inductive FilterFault
  /-- The rules are no list of objects. -/
  | notRuleList
  /-- More rules than allowed. -/
  | tooManyRules (limit : Nat)
  /-- Rules nested deeper than allowed. -/
  | tooDeep (limit : Nat)
  /-- A conjunction that is not known, as it was written. -/
  | unknownConjunction (written : String)
  /-- An object that is no rule. -/
  | malformedRule (members : List (String × Json))
  /-- An operator that is not known. -/
  | unknownOperator (name : String)
  /-- A text with more bytes than allowed. -/
  | oversizedText (limit : Nat)
  /-- A text that is no JSON. -/
  | malformedText
  /-- A name that is no identifier. -/
  | badName (kind : NameKind) (name : String)
  /-- A column that the table of a model lacks. -/
  | missingColumn (model column : String)
  /-- A virtual column without an expression. -/
  | emptyExpression (name : String)
  /-- A model without a surface. -/
  | unknownModel (model : String)
  /-- A reason that a named scope gives in its own words. -/
  | other (reason : String)

/-- Why the parameter of a rule is invalid. -/
inductive ParamFault
  /-- The parameter of a range has no least and greatest value. -/
  | notRange
  /-- A reason that a named scope gives in its own words. -/
  | other (reason : String)

/-- What is answered to a request that cannot be served. -/
inductive Rejection
  /-- The rules or the declaration are invalid. -/
  | invalid (fault : FilterFault)
  /-- There is no filter or named scope of this name. -/
  | unfilterable (name : String)
  /-- A model is not associated with another one. -/
  | unrelated (model related : String)
  /-- The parameter of a rule or named scope is invalid. -/
  | badParam (fault : ParamFault)
  /-- An operation does not apply to a type of column. Operators go by their labels; a named scope
  may have an operation of its own and name it as it likes. -/
  | mismatch (operation : String) (type : ColumnType)

/-- The wording of a fault. -/
def FilterFault.message : FilterFault → String
  | notRuleList => "Invalid rules object"
  | tooManyRules limit => "Maximum " ++ toString limit ++ " rules allowed"
  | tooDeep limit => "Rules nested deeper than " ++ toString limit ++ " levels"
  | unknownConjunction written => "Unknown conjunction: " ++ written
  | malformedRule members => "Invalid rule object: " ++ (Json.object members).text
  | unknownOperator name => "No rule identified by " ++ name
  | oversizedText limit => "Filter JSON exceeds maximum size of " ++ toString limit ++ " bytes"
  | malformedText => "Invalid filter JSON"
  | badName kind name => "Invalid " ++ kind.label ++ " name: " ++ Text.quoted name
  | missingColumn model column => model ++ " has no column named " ++ column
  | emptyExpression name => "Alias " ++ name ++ " has an empty expression"
  | unknownModel model => "No filter surface registered for " ++ model
  | other reason => reason

/-- The wording of a fault. -/
def ParamFault.message : ParamFault → String
  | notRange => "Range filter param must be a range object or a sequence of comparable values"
  | other reason => reason

namespace Rejection

/-- The code of a rejection, by which clients tell the kinds apart. -/
def code : Rejection → String
  | invalid _ => "INVALID_FILTER"
  | unfilterable _ => "UNFILTERABLE_ATTR"
  | unrelated _ _ => "UNFILTERABLE_JOIN"
  | badParam _ => "INVALID_FILTER_PARAM"
  | mismatch _ _ => "FILTER_TYPE_MISMATCH"

/-- The wording of a rejection. -/
def message : Rejection → String
  | invalid fault => "Invalid filter: " ++ fault.message
  | unfilterable name => "Could not compose filter named " ++ name
  | unrelated model related => model ++ " is not filterable by " ++ related
  | badParam fault => "Invalid filter param: " ++ fault.message
  | mismatch operation type => "Cannot apply " ++ operation ++ " rule to " ++ type.name

/-- Whether a rejection blames the input. -/
def blamesInput : Rejection → Bool
  | unrelated _ _ => false
  | _ => true

end Rejection

end Sift
