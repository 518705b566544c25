import Sift.Limits
import Sift.Surface.Filter

/-!
# Surfaces

The *surface* of a model is all that requests may filter it by: attributes of its own, virtual
columns, attributes reached through associations, and the named scopes that are allowed. Filters are
kept by attribute; the filter of an attribute is called by its name behind `by_`.
-/

namespace Sift

/-- What one model can be filtered by. -/
structure Surface where
  /-- The table of the model. -/
  table : Table
  /-- Gives the types of its columns. -/
  types : ColumnTypes
  /-- The limits on rules for this model. -/
  limits : Limits
  /-- The declared attributes and virtual columns, each once. -/
  attributes : List String
  /-- The virtual columns with their expressions, as declared. -/
  virtualColumns : List (String × String)
  /-- The associations, as declared. -/
  associations : List Association
  /-- The named scopes that rules may call, each once. -/
  allowedScopes : List String
  /-- The filters by attribute. -/
  filters : Keyed Filter
  /-- The named scopes by name. -/
  scopes : Keyed NamedScope

/-- The name of the filter of an attribute. -/
def filterName (attr : String) : String :=
  "by_" ++ attr

/-- The attribute whose filter a name calls. -/
def filterAttribute? (name : String) : Option String :=
  match name.toList with
  | 'b' :: 'y' :: '_' :: attr => some (String.ofList attr)
  | _ => none

/-- The name of a filter calls the attribute it was made from. -/
@[simp] theorem filterAttribute?_filterName (attr : String) :
    filterAttribute? (filterName attr) = some attr := by
  simp [filterAttribute?, filterName]

/-- Names in order, by their code points. -/
def sortNames (names : List String) : List String :=
  names.mergeSort fun a b => decide (a ≤ b)

namespace Surface

/-- The name of the model. -/
def model (surface : Surface) : String :=
  surface.table.model

/-- The scope of all rows of the model. -/
def all (surface : Surface) : Scope :=
  Scope.all surface.table

/-- The names of the filters, in order. -/
def sortedFilters (surface : Surface) : List String :=
  sortNames ((Keyed.keys surface.filters).map filterName)

/-- The names of the named scopes, allowed or not, in order. -/
def sortedScopes (surface : Surface) : List String :=
  sortNames (Keyed.keys surface.scopes)

/-- The expression that is reported for a virtual column. -/
def expressionOf? (surface : Surface) (name : String) : Option String :=
  surface.virtualColumns.lookup name

/-- The filter with a name. -/
def filter? (surface : Surface) (name : String) : Option Filter :=
  (filterAttribute? name).bind fun attr => surface.filters.lookup attr

/-- Narrows a scope by the filter with a name. -/
def narrowBy (surface : Surface) (name : String) (arguments : Arguments) (scope : Scope) :
    Except Rejection Scope :=
  match surface.filter? name with
  | some filter => filter.narrow arguments scope
  | none => .error (.unfilterable name)

/-- Narrows a scope by the filter of an attribute. -/
def narrowByAttribute (surface : Surface) (attr : String) (arguments : Arguments)
    (scope : Scope) : Except Rejection Scope :=
  surface.narrowBy (filterName attr) arguments scope

/-- Narrows a scope by the named scope with a name. -/
def narrowByScope (surface : Surface) (name : String) (arguments : ScopeArguments)
    (scope : Scope) : Except Rejection Scope :=
  match surface.scopes.lookup name with
  | some namedScope => namedScope.narrow arguments scope
  | none => .error (.unfilterable name)

/-- An attribute has the filter that is kept under it. -/
@[simp] theorem filter?_filterName (surface : Surface) (attr : String) :
    surface.filter? (filterName attr) = surface.filters.lookup attr := by
  simp [filter?]

end Surface

end Sift
