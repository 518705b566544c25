import Sift.Proofs.Unions
import Sift.Sql.Statement

/-!
# Shapes of scopes

The *shape* of a scope is the scope with null in the place of every value. Values are bound to the
parameters of a statement and never written into it, so the text of the statement and the number of
its parameters depend on the shape alone. What puts scopes together does not look at values either:
the shape of a combined scope is the combination of the shapes.
-/

namespace Sift

/-! ## Pieces -/

namespace Piece

/-- The piece with null for its value. -/
def shape : Piece → Piece
  | text characters => text characters
  | param _ => param .null

/-- The text of pieces does not depend on the values of the parameters. -/
theorem renderFrom_map_shape (placeholder : Nat → String) (next : Nat) (pieces : List Piece) :
    renderFrom placeholder next (pieces.map shape) = renderFrom placeholder next pieces := by
  induction pieces generalizing next with
  | nil => rfl
  | cons piece rest ih =>
    cases piece with
    | text characters => exact congrArg (characters ++ ·) (ih next)
    | param value => exact congrArg (placeholder next ++ ·) (ih (next + 1))

/-- A shape has as many parameters as what it is the shape of. -/
theorem length_values_map_shape (pieces : List Piece) :
    (values (pieces.map shape)).length = (values pieces).length := by
  induction pieces with
  | nil => rfl
  | cons piece rest ih =>
    cases piece with
    | text characters =>
      rw [List.map_cons, shape, values_text, values_text, ih]
    | param value =>
      rw [List.map_cons, shape, values_param, values_param, List.length_cons, List.length_cons, ih]

end Piece

/-- The connective between conditions is a text, so the shape goes into the conditions. -/
theorem map_shape_connect (connective : String) (conditions : List (List Piece)) :
    (connect connective conditions).map Piece.shape =
      connect connective (conditions.map (List.map Piece.shape)) := by
  induction conditions with
  | nil => rfl
  | cons first rest ih =>
    cases rest with
    | nil => simp [connect]
    | cons second rest =>
      rw [connect, connect] at ih ⊢
      rw [List.map_cons, List.map_cons, List.intercalate_cons_cons, List.intercalate_cons_cons,
        List.map_append, List.map_append, ih]
      rfl

/-- Whether there is a clause depends on whether there are conditions, which their shapes tell as
well. -/
theorem map_shape_whereClause (conditions : List (List Piece)) :
    (whereClause conditions).map Piece.shape =
      whereClause (conditions.map (List.map Piece.shape)) := by
  cases conditions with
  | nil => rfl
  | cons first rest => exact congrArg _ (map_shape_connect " AND " (first :: rest))

/-- A selection has no parameter, so it is its own shape. -/
theorem map_shape_selection (verb table primaryKey : String) (joins : List Join) :
    (selection verb table primaryKey joins).map Piece.shape =
      selection verb table primaryKey joins := by
  rw [selection, List.map_cons, List.map_map]
  rfl

/-! ## Shapes of scopes -/

mutual

/-- The condition with null for all values, also of the scopes inside it. -/
def Condition.shape : Condition → Condition
  | .compares lhs comparison _ => .compares lhs comparison .null
  | .isNull lhs => .isNull lhs
  | .contains lhs _ => .contains lhs .null
  | .impossible => .impossible
  | .isAmong lhs scope negated => .isAmong lhs scope.shape negated
  | .anyOf members => .anyOf (shapes members)

/-- The scope with null for all values. -/
def Scope.shape : Scope → Scope
  | ⟨model, table, primaryKey, joins, conditions, limit, offset⟩ =>
    ⟨model, table, primaryKey, joins, shapes conditions, limit, offset⟩

def shapes : List Condition → List Condition
  | [] => []
  | condition :: rest => condition.shape :: shapes rest

end

/-- The recursion over conditions is that of a map. -/
theorem shapes_eq_map (conditions : List Condition) :
    shapes conditions = conditions.map Condition.shape := by
  induction conditions with
  | nil => rfl
  | cons condition rest ih => rw [shapes, List.map_cons, ih]

/-- The shape of a scope differs from it in the conditions alone. -/
theorem Scope.shape_eq (scope : Scope) :
    scope.shape = { scope with conditions := shapes scope.conditions } := by
  cases scope
  rw [shape]

section

variable (database : Database)

/-- A search has one parameter, in every database. -/
theorem Database.map_shape_contains (expression : String) (needle : Json) :
    (database.contains expression (.param needle)).map Piece.shape =
      database.contains expression (.param .null) := by
  cases database <;> rfl

mutual

/-- The pieces of a shape are those of the condition with null for all values. -/
theorem Condition.pieces_shape : (condition : Condition) →
    condition.shape.pieces database = (condition.pieces database).map Piece.shape
  | .compares _ _ _ => by rw [Condition.shape, Condition.pieces, Condition.pieces]; rfl
  | .isNull _ => by rw [Condition.shape, Condition.pieces]; rfl
  | .contains lhs needle => by
    rw [Condition.shape, Condition.pieces, Condition.pieces, database.map_shape_contains]
  | .impossible => by rw [Condition.shape, Condition.pieces]; rfl
  | .isAmong lhs scope negated => by
    rw [Condition.shape, Condition.pieces, Condition.pieces, scope.subquery_shape, List.map_cons,
      List.map_append]
    rfl
  | .anyOf [] => by rw [Condition.shape, shapes, Condition.pieces]; rfl
  | .anyOf (first :: rest) => by
    rw [Condition.shape, shapes, Condition.pieces, Condition.pieces, first.pieces_shape,
      conditionPieces_shapes rest, List.map_cons, List.map_append, map_shape_connect]
    rfl

/-- The subquery of a shape is the shape of the subquery. -/
theorem Scope.subquery_shape : (scope : Scope) →
    scope.shape.subquery database = (scope.subquery database).map Piece.shape
  | ⟨_, _, _, _, conditions, _, _⟩ => by
    rw [Scope.shape, Scope.subquery, Scope.subquery, conditionPieces_shapes conditions,
      List.map_append, map_shape_selection, map_shape_whereClause]

/-- The pieces of shapes are the shapes of the pieces, condition by condition. -/
theorem conditionPieces_shapes : (conditions : List Condition) →
    conditionPieces database (shapes conditions) =
      (conditionPieces database conditions).map (List.map Piece.shape)
  | [] => rfl
  | condition :: rest => by
    rw [shapes, conditionPieces, conditionPieces, List.map_cons, condition.pieces_shape,
      conditionPieces_shapes rest]

end

namespace Scope

/-- The statement of a shape is the shape of the statement; so scopes of one shape have statements
of one text. -/
theorem statement_shape (scope : Scope) :
    scope.shape.statement database = (scope.statement database).map Piece.shape := by
  have hpage : (scope.orderAndPage database).map Piece.shape = scope.orderAndPage database := by
    unfold orderAndPage
    cases database.pageClause scope.limit scope.offset <;> rfl
  rw [shape_eq, statement, statement, List.map_append, List.map_append, map_shape_selection,
    map_shape_whereClause, hpage, conditionPieces_shapes]
  rfl

/-- Scopes of one shape have statements with one text and as many parameters. -/
theorem sql_eq_of_shape_eq {scope other : Scope} (h : scope.shape = other.shape) :
    scope.sql database = other.sql database ∧
      (scope.params database).length = (other.params database).length := by
  have hstatement : (scope.statement database).map Piece.shape =
      (other.statement database).map Piece.shape := by
    rw [← statement_shape, ← statement_shape, h]
  constructor
  · rw [sql, sql, Piece.render, Piece.render, ← Piece.renderFrom_map_shape, hstatement,
      Piece.renderFrom_map_shape]
  · rw [params, params, ← Piece.length_values_map_shape, hstatement,
      Piece.length_values_map_shape]

end Scope

end

/-! ## Shapes of combined scopes -/

mutual

/-- Renaming does not look at values, so it may come before the shape or behind it. -/
theorem Condition.shape_renamed (renames : Renames) : (condition : Condition) →
    (condition.renamed renames).shape = condition.shape.renamed renames
  | .compares _ _ _ => by
    rw [Condition.renamed, Condition.shape, Condition.shape, Condition.renamed]
  | .isNull _ => by rw [Condition.renamed, Condition.shape, Condition.shape, Condition.renamed]
  | .contains _ _ => by rw [Condition.renamed, Condition.shape, Condition.shape, Condition.renamed]
  | .impossible => by rw [Condition.renamed, Condition.shape, Condition.renamed]
  | .isAmong _ _ _ => by rw [Condition.renamed, Condition.shape, Condition.shape, Condition.renamed]
  | .anyOf members => by
    rw [Condition.renamed, Condition.shape, Condition.shape, Condition.renamed,
      shapes_renamedAll renames members]

theorem shapes_renamedAll (renames : Renames) : (conditions : List Condition) →
    shapes (renamedAll renames conditions) = renamedAll renames (shapes conditions)
  | [] => rfl
  | condition :: rest => by
    rw [renamedAll, shapes, shapes, renamedAll, condition.shape_renamed renames,
      shapes_renamedAll renames rest]

end

namespace Scope

@[simp] theorem cleared_shape (scope : Scope) : scope.shape.cleared = scope.cleared := by
  rw [shape_eq]
  rfl

@[simp] theorem shape_withoutPage (scope : Scope) :
    scope.withoutPage.shape = scope.shape.withoutPage := by
  rw [shape_eq, shape_eq]
  rfl

@[simp] theorem shape_narrow (scope : Scope) (conditions : List Condition) :
    (scope.narrow conditions).shape = scope.shape.narrow (shapes conditions) := by
  rw [shape_eq, shape_eq, conditions_narrow, shapes_eq_map, List.map_append, ← shapes_eq_map,
    ← shapes_eq_map]
  rfl

/-- A conjunction of shapes is the shape of the conjunction. -/
@[simp] theorem shape_conjoin (scope other : Scope) :
    (scope.conjoin other).shape = scope.shape.conjoin other.shape := by
  rw [shape_eq, shape_eq, shape_eq, conditions_conjoin, shapes_eq_map, List.map_append,
    ← shapes_eq_map, ← shapes_eq_map]
  rfl

@[simp] theorem shape_excluding (scope other : Scope) :
    (scope.excluding other).shape = scope.shape.excluding other.shape := by
  rw [excluding, excluding, shape_narrow, shapes, shapes, Condition.shape, shape_withoutPage,
    shape_eq scope]
  rfl

/-- What comes through a join is renamed, and the shape goes along. -/
@[simp] theorem shape_conjoinVia (scope : Scope) (join : Join) (related : Scope) :
    (scope.conjoinVia join related).shape = scope.shape.conjoinVia join related.shape := by
  rw [shape_eq, shape_eq scope, shape_eq related, conjoinVia, conjoinVia]
  simp only [renamesBehind, shapes_eq_map, List.map_append]
  rw [← shapes_eq_map, ← shapes_eq_map, ← shapes_eq_map, shapes_renamedAll]

/-- Of two scopes with one shape the rows of the same table are taken. -/
theorem cleared_eq_of_shape_eq {scope other : Scope} (h : scope.shape = other.shape) :
    scope.cleared = other.cleared := by
  rw [← cleared_shape, h, cleared_shape]

end Scope

/-- The shape of a union is the union of the shapes of its branches. -/
theorem Surface.shape_union (surface : Surface) (branches : List Scope) :
    (surface.union branches).shape = surface.union (branches.map Scope.shape) := by
  have hmembers :
      shapes (branches.map fun branch => .isAmong surface.all.key branch.withoutPage false) =
        (branches.map Scope.shape).map fun branch =>
          .isAmong surface.all.key branch.withoutPage false := by
    rw [shapes_eq_map, List.map_map, List.map_map]
    refine List.map_congr_left fun branch _ => ?_
    show (Condition.isAmong surface.all.key branch.withoutPage false).shape = _
    rw [Condition.shape, branch.shape_withoutPage]
    rfl
  rw [union, union, Scope.shape_narrow, shapes, shapes, Condition.shape, hmembers]
  rfl

end Sift
