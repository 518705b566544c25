import Sift.Table

/-!
# Scopes

A *scope* describes a query against the table of one model: the tables it joins, the conditions that
all must hold, and an optional page. Nothing is executed here; filters take a scope and give a
narrower one.

A table in a query is known under a *qualifier*: the table of the scope under its own name, and each
joined table under a name that its join gives. Conditions may hold scopes in turn, as the set of
primary keys that these select.

Two scopes over the same table are combined by `Scope.conjoin`, which requires what both require.
-/

namespace Sift

/-- A column of a table that takes part in a query. -/
structure Column where
  /-- The qualifier of the table. -/
  qualifier : String
  /-- The name of the column. -/
  name : String
deriving DecidableEq, Repr

/-- What a condition is about. -/
inductive Operand
  /-- A column. -/
  | column (source : Column)
  /-- The expression of a virtual column. -/
  | expression (sql : String)
deriving DecidableEq, Repr

/-- How an operand compares with a value. -/
inductive Comparison
  | equal
  | atLeast
  | atMost
deriving DecidableEq, Repr

/-- A left join: every row stays, with the matching rows of `table` beside it, or with nulls if
there are none. -/
structure Join where
  /-- The table that is joined. -/
  table : String
  /-- The qualifier under which it is known. -/
  qualifier : String
  /-- The column of the joined table that must match. -/
  left : Column
  /-- The column of an earlier table that it must equal. -/
  right : Column
deriving DecidableEq, Repr

mutual

/-- A condition on the rows of a scope. -/
inductive Condition
  /-- The operand compares with a value. -/
  | compares (lhs : Operand) (comparison : Comparison) (value : Json)
  /-- The operand is null. -/
  | isNull (lhs : Operand)
  /-- The operand contains a text, in any letter case. -/
  | contains (lhs : Operand) (needle : Json)
  /-- No row satisfies this. -/
  | impossible
  /-- The operand is among the primary keys that a scope selects, or, if `negated`, not among
  them. -/
  | isAmong (lhs : Operand) (scope : Scope) (negated : Bool)
  /-- At least one of the members holds. -/
  | anyOf (members : List Condition)

/-- A query against the table of one model. -/
structure Scope where
  /-- The model. -/
  model : String
  /-- The name of its table. -/
  table : String
  /-- The primary key of the table. -/
  primaryKey : String
  /-- The joined tables, in the order in which they are joined. -/
  joins : List Join
  /-- The conditions, all of which must hold. -/
  conditions : List Condition
  /-- The greatest number of rows, if there is one. -/
  limit : Option Nat
  /-- The number of rows to leave out first, if there is one. -/
  offset : Option Nat

end

namespace Scope

/-- The scope of all rows of a table. -/
def all (table : Table) : Scope :=
  ⟨table.model, table.name, table.primaryKey, [], [], none, none⟩

/-- The scope of all rows of the same table. -/
def cleared (scope : Scope) : Scope :=
  { scope with joins := [], conditions := [], limit := none, offset := none }

/-- The primary key of the table of a scope. -/
def key (scope : Scope) : Operand :=
  .column ⟨scope.table, scope.primaryKey⟩

/-- Whether a scope has no join, no condition and no page. -/
def isUnrestricted (scope : Scope) : Bool :=
  scope.conditions.isEmpty && scope.joins.isEmpty && scope.limit.isNone && scope.offset.isNone

/-- Adds conditions behind those of the scope. -/
def narrow (scope : Scope) (conditions : List Condition) : Scope :=
  { scope with conditions := scope.conditions ++ conditions }

/-- The scope without its page. -/
def withoutPage (scope : Scope) : Scope :=
  { scope with limit := none, offset := none }

/-- Keeps the rows whose primary keys another scope selects; the page of the other scope does not
count. -/
def among (scope other : Scope) : Scope :=
  scope.narrow [.isAmong scope.key other.withoutPage false]

/-- Keeps the rows whose primary keys another scope does not select; the page of the other scope
does not count. -/
def excluding (scope other : Scope) : Scope :=
  scope.narrow [.isAmong scope.key other.withoutPage true]

/-- Adds a join at the end of a list, unless the list has it. -/
def addJoin (joins : List Join) (join : Join) : List Join :=
  if join ∈ joins then joins else joins ++ [join]

/-- Adds the joins of a second list that the first one lacks, in order. -/
def addJoins (joins added : List Join) : List Join :=
  added.foldl addJoin joins

/-- Joins a table, unless the very same join is there. -/
def withJoin (scope : Scope) (join : Join) : Scope :=
  { scope with joins := addJoin scope.joins join }

/-- Requires what both scopes require. A limit or an offset that the second scope sets replaces that
of the first one. -/
def conjoin (scope other : Scope) : Scope :=
  { scope with
    joins := addJoins scope.joins other.joins
    conditions := scope.conditions ++ other.conditions
    limit := other.limit.or scope.limit
    offset := other.offset.or scope.offset }

@[simp] theorem addJoins_nil (joins : List Join) : addJoins joins [] = joins := rfl

@[simp] theorem conditions_narrow (scope : Scope) (conditions : List Condition) :
    (scope.narrow conditions).conditions = scope.conditions ++ conditions := rfl

@[simp] theorem conditions_conjoin (scope other : Scope) :
    (scope.conjoin other).conditions = scope.conditions ++ other.conditions := rfl

@[simp] theorem joins_conjoin (scope other : Scope) :
    (scope.conjoin other).joins = addJoins scope.joins other.joins := rfl

/-- Narrowing is conjoining with the conditions alone. -/
theorem conjoin_narrow_cleared (scope : Scope) (conditions : List Condition) :
    scope.conjoin (scope.cleared.narrow conditions) = scope.narrow conditions := by
  simp [conjoin, narrow, cleared]

end Scope

end Sift
