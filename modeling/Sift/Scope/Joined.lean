import Sift.Scope.Basic

/-!
# Conditions on joined tables

The conditions of a scope on a related table become conditions on the owner's rows: the related
table is joined, and everything that the scope says about its own table is said about the joined
one instead. For that its qualifiers are renamed. The related table takes the qualifier of the join,
and each table that the related scope joins goes one level down, under the qualifier of the join and
its own with an underscore between, so that two ways to the same table stay apart.
-/

namespace Sift

/-- New qualifiers for old ones; the first entry for a qualifier counts. -/
abbrev Renames := List (String × String)

/-- The new qualifier, or the old one if there is no other. -/
def Renames.apply (renames : Renames) (qualifier : String) : String :=
  (renames.lookup qualifier).getD qualifier

/-- The same column under the new qualifier. -/
def Column.renamed (renames : Renames) (column : Column) : Column :=
  { column with qualifier := renames.apply column.qualifier }

/-- Expressions are left as they were declared. -/
def Operand.renamed (renames : Renames) : Operand → Operand
  | .column source => .column (source.renamed renames)
  | .expression sql => .expression sql

/-- The same join under new qualifiers. -/
def Join.renamed (renames : Renames) (join : Join) : Join :=
  { join with
    qualifier := renames.apply join.qualifier
    left := join.left.renamed renames
    right := join.right.renamed renames }

mutual

/-- The same condition under new qualifiers. Scopes inside it select from tables of their own and
keep theirs. -/
def Condition.renamed (renames : Renames) : Condition → Condition
  | .compares lhs comparison value => .compares (lhs.renamed renames) comparison value
  | .isNull lhs => .isNull (lhs.renamed renames)
  | .contains lhs needle => .contains (lhs.renamed renames) needle
  | .impossible => .impossible
  | .isAmong lhs scope negated => .isAmong (lhs.renamed renames) scope negated
  | .anyOf members => .anyOf (renamedAll renames members)

/-- The same conditions under new qualifiers. -/
def renamedAll (renames : Renames) : List Condition → List Condition
  | [] => []
  | condition :: rest => condition.renamed renames :: renamedAll renames rest

end

theorem renamedAll_eq_map (renames : Renames) (conditions : List Condition) :
    renamedAll renames conditions = conditions.map (Condition.renamed renames) := by
  induction conditions with
  | nil => rfl
  | cons condition rest ih => simp [renamedAll, ih]

namespace Scope

/-- The qualifiers of a related scope behind a join. -/
def renamesBehind (join : Join) (related : Scope) : Renames :=
  (related.table, join.qualifier) ::
    related.joins.map fun nested =>
      (nested.qualifier, join.qualifier ++ "_" ++ nested.qualifier)

/-- Joins a related table and requires what a scope on it requires. The page of that scope does not
count. -/
def conjoinVia (scope : Scope) (join : Join) (related : Scope) : Scope :=
  let renames := renamesBehind join related
  { scope with
    joins := addJoins scope.joins (join :: related.joins.map (Join.renamed renames))
    conditions := scope.conditions ++ renamedAll renames related.conditions }

end Scope

end Sift
