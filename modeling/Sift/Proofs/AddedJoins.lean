import Mathlib.Data.List.Nodup
import Sift.Proofs.Operands

/-!
# Adding joins

Conjoining scopes adds the joins of one to those of another and leaves out the ones that are there
already. The joins that are there keep their places at the front, so what was joined first stays
joined first; every join of either side is in the result, and none twice.

A list of joins is *ordered* if each join compares a column of its own table with a column of a
table that is named before it. Adding an ordered list to an ordered list gives an ordered list.
-/

namespace Sift

namespace Scope

theorem addJoins_cons (joins : List Join) (join : Join) (rest : List Join) :
    addJoins joins (join :: rest) = addJoins (addJoin joins join) rest := rfl

/-- Adding a join leaves those before it in place. -/
theorem prefix_addJoin (joins : List Join) (join : Join) : joins <+: addJoin joins join := by
  unfold addJoin
  split
  · exact List.prefix_rfl
  · exact List.prefix_append joins [join]

/-- Whether it was there or not, afterwards the join is there. -/
theorem mem_addJoin {joins : List Join} {join other : Join} :
    other ∈ addJoin joins join ↔ other ∈ joins ∨ other = join := by
  unfold addJoin
  split
  · next h => exact ⟨Or.inl, fun hor => hor.elim id fun heq => heq ▸ h⟩
  · rw [List.mem_append, List.mem_singleton]

/-- Adding a join makes no join double. -/
theorem nodup_addJoin {joins : List Join} (h : joins.Nodup) (join : Join) :
    (addJoin joins join).Nodup := by
  unfold addJoin
  split
  · exact h
  · next hmem => exact List.concat_eq_append ▸ h.concat hmem

/-- Adding joins leaves those before them in place, so what they were compared with stays earlier.
-/
theorem prefix_addJoins (joins added : List Join) : joins <+: addJoins joins added := by
  induction added generalizing joins with
  | nil => exact List.prefix_rfl
  | cons join rest ih => exact (prefix_addJoin joins join).trans (ih _)

theorem mem_addJoins {joins added : List Join} {join : Join} :
    join ∈ addJoins joins added ↔ join ∈ joins ∨ join ∈ added := by
  induction added generalizing joins with
  | nil => simp
  | cons first rest ih => rw [addJoins_cons, ih, mem_addJoin, List.mem_cons, or_assoc]

theorem nodup_addJoins {joins : List Join} (h : joins.Nodup) (added : List Join) :
    (addJoins joins added).Nodup := by
  induction added generalizing joins with
  | nil => exact h
  | cons join rest ih => exact ih (nodup_addJoin h join)

/-- Joins that differ are put behind the others, all of them. -/
theorem addJoins_eq_append {joins added : List Join} (h : (joins ++ added).Nodup) :
    addJoins joins added = joins ++ added := by
  induction added generalizing joins with
  | nil => rw [addJoins_nil, List.append_nil]
  | cons join rest ih =>
    have hnew : join ∉ joins := fun hmem =>
      List.disjoint_of_nodup_append h hmem (List.mem_cons_self ..)
    rw [List.append_cons] at h ⊢
    rw [addJoins_cons, addJoin, if_neg hnew, ih h]

theorem addJoins_of_mem {joins : List Join} {join : Join} (h : join ∈ joins) :
    addJoin joins join = joins := if_pos h

/-- Joins can be added in two portions. -/
theorem addJoins_append (joins first second : List Join) :
    addJoins joins (first ++ second) = addJoins (addJoins joins first) second :=
  List.foldl_append

/-- What becomes of joins can be added one list after the other: a join that the second list repeats
becomes what is there already. -/
theorem addJoins_map_addJoins (change : Join → Join) (joins first second : List Join) :
    addJoins joins ((addJoins first second).map change) =
      addJoins (addJoins joins (first.map change)) (second.map change) := by
  induction second generalizing first with
  | nil => rfl
  | cons join rest ih =>
    rw [addJoins_cons, ih, List.map_cons, addJoins_cons]
    congr 1
    by_cases h : join ∈ first
    · have hboth : change join ∈ addJoins joins (first.map change) :=
        mem_addJoins.mpr (Or.inr (List.mem_map_of_mem h))
      rw [addJoins_of_mem h, addJoins_of_mem hboth]
    · rw [addJoin, if_neg h, List.map_append, addJoins_append]
      rfl

/-- A list with the joins of another one left out adds, behind that one, what the whole list
adds. -/
theorem addJoins_addJoins (joins first second : List Join) :
    addJoins joins (addJoins first second) = addJoins (addJoins joins first) second := by
  simpa using addJoins_map_addJoins id joins first second

/-- A conjunction keeps the qualifiers of the first scope. -/
theorem names_subset_conjoin (scope other : Scope) : scope.names ⊆ (scope.conjoin other).names :=
  List.cons_subset_cons _ (List.map_subset _ (prefix_addJoins scope.joins other.joins).subset)

theorem names_subset_conjoin_right {scope other : Scope} (htable : other.table = scope.table) :
    other.names ⊆ (scope.conjoin other).names := by
  rw [names, names, htable]
  refine List.cons_subset_cons _ (List.map_subset _ fun join hjoin => ?_)
  exact mem_addJoins.mpr (Or.inr hjoin)

/-- Conjunction is associative, for pages too: the last one that is set counts. -/
theorem conjoin_assoc (first second third : Scope) :
    (first.conjoin second).conjoin third = first.conjoin (second.conjoin third) := by
  simp [conjoin, addJoins_addJoins, Option.or_assoc]

/-- All rows of the table require nothing more. -/
theorem conjoin_cleared (scope other : Scope) : scope.conjoin other.cleared = scope := by
  cases scope
  simp [conjoin, cleared]

/-- Conjoined with all rows of its table, a scope stays the same if it has no join twice. -/
theorem cleared_conjoin {scope : Scope} (h : scope.joins.Nodup) :
    scope.cleared.conjoin scope = scope := by
  have hjoins : addJoins [] scope.joins = scope.joins := addJoins_eq_append h
  cases scope
  simp_all [conjoin, cleared]

/-- Scopes that are conjoined one after the other bring in all their joins. -/
theorem mem_joins_foldl {scope : Scope} {others : List Scope} {join : Join} :
    join ∈ (others.foldl conjoin scope).joins ↔
      join ∈ scope.joins ∨ ∃ other ∈ others, join ∈ other.joins := by
  induction others generalizing scope with
  | nil => simp
  | cons other rest ih => simp [ih, mem_addJoins, or_assoc]

/-- Scopes that are conjoined one after the other bring in all their conditions, in their order. -/
theorem conditions_foldl (scope : Scope) (others : List Scope) :
    (others.foldl conjoin scope).conditions =
      scope.conditions ++ others.flatMap Scope.conditions := by
  induction others generalizing scope with
  | nil => simp
  | cons other rest ih => simp [ih]

end Scope

/-- Each join compares a column of its own table with one of a table that is named before it;
`names` are the qualifiers before the first one. -/
def JoinsOrdered (names : List String) : List Join → Prop
  | [] => True
  | join :: rest =>
    join.left.qualifier = join.qualifier ∧ join.right.qualifier ∈ names ∧
      JoinsOrdered (names ++ [join.qualifier]) rest

/-- A scope is well scoped if its operands are about its own tables and its joins are ordered. -/
structure Scope.WellScoped (scope : Scope) : Prop where
  operands : scope.OperandsDeclared
  joins : JoinsOrdered [scope.table] scope.joins

/-- Ordered joins are ordered in portions: the second one may compare with tables of the first. -/
theorem joinsOrdered_append {names : List String} {first second : List Join} :
    JoinsOrdered names (first ++ second) ↔
      JoinsOrdered names first ∧ JoinsOrdered (names ++ first.map Join.qualifier) second := by
  induction first generalizing names with
  | nil => simp [JoinsOrdered]
  | cons join rest ih => simp [JoinsOrdered, ih, and_assoc]

/-- Every join of an ordered list compares a column of its own table. -/
theorem JoinsOrdered.left_eq {names : List String} {joins : List Join}
    (h : JoinsOrdered names joins) {join : Join} (hmem : join ∈ joins) :
    join.left.qualifier = join.qualifier := by
  induction joins generalizing names with
  | nil => exact absurd hmem List.not_mem_nil
  | cons first rest ih =>
    obtain ⟨hleft, -, hrest⟩ := h
    rcases List.mem_cons.mp hmem with rfl | hmem
    · exact hleft
    · exact ih hrest hmem

/-- Every join of an ordered list compares with a qualifier of the list or one before it. -/
theorem JoinsOrdered.right_mem {names : List String} {joins : List Join}
    (h : JoinsOrdered names joins) {join : Join} (hmem : join ∈ joins) :
    join.right.qualifier ∈ names ++ joins.map Join.qualifier := by
  induction joins generalizing names with
  | nil => exact absurd hmem List.not_mem_nil
  | cons first rest ih =>
    obtain ⟨-, hright, hrest⟩ := h
    rcases List.mem_cons.mp hmem with rfl | hmem
    · exact List.mem_append_left _ hright
    · rw [List.map_cons, List.append_cons]
      exact ih hrest hmem

/-- What an ordered list adds to another list stands behind it, and is ordered there if the other
list names what is needed. -/
theorem JoinsOrdered.exists_added {names needed : List String} {joins added : List Join}
    (h : JoinsOrdered needed added) (hneeded : needed ⊆ names ++ joins.map Join.qualifier) :
    ∃ rest, Scope.addJoins joins added = joins ++ rest ∧
      JoinsOrdered (names ++ joins.map Join.qualifier) rest := by
  induction added generalizing joins needed with
  | nil => exact ⟨[], (List.append_nil joins).symm, trivial⟩
  | cons join rest ih =>
    obtain ⟨hleft, hright, hrest⟩ := h
    rw [Scope.addJoins_cons]
    by_cases hmem : join ∈ joins
    · -- the join is there already, so its qualifier is known
      rw [Scope.addJoins_of_mem hmem]
      refine ih hrest (List.append_subset.mpr ⟨hneeded, List.cons_subset.mpr ⟨?_, by simp⟩⟩)
      exact List.mem_append_right _ (List.mem_map_of_mem hmem)
    · -- the join is put at the end, behind everything that it may be compared with
      rw [Scope.addJoin, if_neg hmem]
      have hlonger : names ++ (joins ++ [join]).map Join.qualifier =
          (names ++ joins.map Join.qualifier) ++ [join.qualifier] := by
        rw [List.map_append, ← List.append_assoc]
        rfl
      have hbefore : needed ++ [join.qualifier] ⊆
          names ++ (joins ++ [join]).map Join.qualifier := by
        rw [hlonger]
        exact List.append_subset.mpr ⟨List.subset_append_of_subset_left _ hneeded,
          List.subset_append_right _ _⟩
      obtain ⟨others, heq, hothers⟩ := ih hrest hbefore
      rw [hlonger] at hothers
      refine ⟨join :: others, ?_, hleft, hneeded hright, hothers⟩
      rw [heq, List.append_assoc]
      rfl

/-- The joins of an ordered list can be added to an ordered list that names what they need. -/
theorem JoinsOrdered.addJoins {names needed : List String} {joins added : List Join}
    (h : JoinsOrdered names joins) (hadded : JoinsOrdered needed added)
    (hneeded : needed ⊆ names ++ joins.map Join.qualifier) :
    JoinsOrdered names (Scope.addJoins joins added) := by
  obtain ⟨rest, heq, hrest⟩ := hadded.exists_added hneeded
  rw [heq]
  exact joinsOrdered_append.mpr ⟨h, hrest⟩

end Sift
