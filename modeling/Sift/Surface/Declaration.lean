import Sift.Surface.Basic

/-!
# Declarations

A declaration says what a model shall be filtered by. Compiling it checks every name, looks the
related models up and writes down one filter for each attribute, its own and those reached through
associations. Where two parts of a declaration give filters to the same attribute, the later one
counts: attributes come first, then virtual columns, then associations.
-/

namespace Sift

/-- An association as it is declared, with the name of the related model. -/
structure AssociationDeclaration where
  /-- Which table holds the foreign key. -/
  kind : AssociationKind
  /-- The name of the association. -/
  name : String
  /-- The column that holds the foreign key. -/
  foreignKey : String
  /-- The related model. -/
  model : String

/-- What a model shall be filtered by. -/
structure Declaration where
  /-- The table of the model. -/
  table : Table
  /-- Gives the types of the columns, if not the table. -/
  types : Option ColumnTypes
  /-- The limits on rules, if not those of the catalog. -/
  limits : Option Limits
  /-- Columns to filter by. -/
  attributes : List String
  /-- Virtual columns with their expressions. -/
  virtualColumns : List (String × String)
  /-- Named scopes. -/
  namedScopes : List (String × ScopeFunction)
  /-- The named scopes that rules may call. -/
  allowedScopes : List String
  /-- Associations with other models. -/
  associations : List AssociationDeclaration

namespace Association

/-- The filters that an owner gets through an association: one for the primary key of the related
model, under the name of the association, and one for each filter of the related model. -/
def filters (association : Association) (owner : Table) (related : Surface) :
    List (String × Filter) :=
  let through := Filter.through (association.join owner) related.table
  (association.name, through (.own related.types (.column related.table.primaryKey))) ::
    related.filters.map fun entry => (association.nestedName entry.1, through entry.2)

/-- The named scopes that an owner gets through an association: those that the related model
allows. -/
def scopes (association : Association) (owner : Table) (related : Surface) :
    List (String × NamedScope) :=
  related.allowedScopes.map fun name =>
    (association.nestedName name, .through (association.join owner) related.table
      ((related.scopes.lookup name).getD (.absent name)))

end Association

namespace Declaration

/-- What gives the types of the columns. -/
def columnTypes (declaration : Declaration) : ColumnTypes :=
  declaration.types.getD declaration.table.types

/-! ## Checks -/

/-- Requires an attribute to be an identifier and a column with a type. -/
def checkAttribute (declaration : Declaration) (attr : String) : Except Rejection Unit := do
  requireName .attr attr
  if (declaration.columnTypes declaration.table.model attr).isNone then
    throw (.invalid (.missingColumn declaration.table.model attr))

/-- Requires a virtual column to have an identifier and an expression. -/
def checkVirtualColumn (entry : String × String) : Except Rejection Unit := do
  requireName .virtualColumn entry.1
  if (Text.trim entry.2).isEmpty then
    throw (.invalid (.emptyExpression entry.1))

/-- Looks up the model that an association relates to and requires the foreign key to be there. -/
def link (declaration : Declaration) (lookUp : String → Option Surface)
    (association : AssociationDeclaration) : Except Rejection (Association × Surface) := do
  requireName .association association.name
  requireName .foreignKey association.foreignKey
  match lookUp association.model with
  | none => throw (.unrelated declaration.table.model association.model)
  | some related =>
    let keyTable := match association.kind with
      | .belongsTo => declaration.table
      | .hasMany => related.table
    keyTable.requireColumn association.foreignKey
    return (⟨association.kind, association.name, association.foreignKey, related.table⟩, related)

/-! ## Compilation -/

/-- The filters on the model's own table: attributes, then virtual columns. -/
def ownFilters (declaration : Declaration) : List (String × Filter) :=
  (declaration.attributes.map fun attr =>
    (attr, .own declaration.columnTypes (.column attr))) ++
  declaration.virtualColumns.map fun entry =>
    (entry.1, .own declaration.columnTypes (.expression entry.2))

/-- The surface of a declaration whose associations have been looked up. -/
def surface (declaration : Declaration) (defaults : Limits)
    (linked : List (Association × Surface)) : Surface where
  table := declaration.table
  types := declaration.columnTypes
  limits := declaration.limits.getD defaults
  attributes := (declaration.attributes ++ declaration.virtualColumns.map Prod.fst).eraseDups
  virtualColumns := declaration.virtualColumns
  associations := linked.map Prod.fst
  allowedScopes := declaration.allowedScopes.eraseDups
  filters := Keyed.ofList (declaration.ownFilters ++
    linked.flatMap fun link => link.1.filters declaration.table link.2)
  scopes := Keyed.ofList (
    (declaration.namedScopes.map fun entry => (entry.1, .own entry.2)) ++
    linked.flatMap fun link => link.1.scopes declaration.table link.2)

/-- Compiles a declaration. `lookUp` knows the surfaces of other models, and `defaults` are the
limits if the declaration gives none. Checks are made in the order of the declaration, with the
allowed scopes last, and the first that fails is reported. -/
def compile (declaration : Declaration) (lookUp : String → Option Surface) (defaults : Limits) :
    Except Rejection Surface := do
  declaration.table.requireNames
  declaration.attributes.forM declaration.checkAttribute
  declaration.virtualColumns.forM checkVirtualColumn
  declaration.namedScopes.forM fun entry => requireName .scope entry.1
  let linked ← declaration.associations.mapM (declaration.link lookUp)
  declaration.allowedScopes.forM (requireName .scope)
  return declaration.surface defaults linked

/-- Compiles a declaration that stands alone. -/
def compileAlone (declaration : Declaration) : Except Rejection Surface :=
  declaration.compile (fun _ => none) Limits.default

end Declaration

end Sift
