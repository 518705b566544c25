import Sift.Scope.Joined

/-!
# Associations

The rows of two models belong together by a foreign key: a column of one table holds the primary key
of a row of the other. An owner reaches its related rows by a left join under the name of the
association, so owners without any related row stay.
-/

namespace Sift

/-- Which of the two tables holds the foreign key. -/
inductive AssociationKind
  /-- The owner's table. -/
  | belongsTo
  /-- The related table. -/
  | hasMany
deriving DecidableEq, Repr

/-- The name of a kind of association. -/
def AssociationKind.name : AssociationKind → String
  | belongsTo => "belongs_to"
  | hasMany => "has_many"

/-- An association of an owner with a related table. -/
structure Association where
  /-- Which table holds the foreign key. -/
  kind : AssociationKind
  /-- The name, which becomes the qualifier of the related table. -/
  name : String
  /-- The column that holds the foreign key. -/
  foreignKey : String
  /-- The related table. -/
  related : Table

namespace Association

/-- The column of the related table by which its rows are found. -/
def relatedKey (association : Association) : String :=
  match association.kind with
  | .belongsTo => association.related.primaryKey
  | .hasMany => association.foreignKey

/-- The column of the owner's table that the related key must equal. -/
def ownerKey (association : Association) (owner : Table) : String :=
  match association.kind with
  | .belongsTo => association.foreignKey
  | .hasMany => owner.primaryKey

/-- The join of the related table to the table of an owner. -/
def join (association : Association) (owner : Table) : Join :=
  { table := association.related.name
    qualifier := association.name
    left := ⟨association.name, association.relatedKey⟩
    right := ⟨owner.name, association.ownerKey owner⟩ }

/-- The owner's name for something that the related model calls by a name of its own. -/
def nestedName (association : Association) (name : String) : String :=
  association.name ++ "_" ++ name

end Association

end Sift
