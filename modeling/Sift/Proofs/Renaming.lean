import Sift.Proofs.LeftJoins

/-!
# Qualifiers behind a join

Behind a join the table of a related scope takes the qualifier of the join, and the tables that the
related scope joins go one level down. If the related scope gives no qualifier twice, the new
qualifiers differ as well, so each line of the related scope shows again, under the new qualifiers,
beside every row that it is joined to, and it is kept there if the related scope keeps it.
-/

namespace Sift

/-! ## New qualifiers -/

/-- The qualifier that a qualifier of a related scope gets behind a join. -/
def Join.nested (join : Join) (qualifier : String) : String :=
  join.qualifier ++ "_" ++ qualifier

/-- Different qualifiers stay different one level down. -/
theorem Join.nested_injective (join : Join) : Function.Injective join.nested := by
  intro first second h
  have hlist := congrArg String.toList h
  simp only [nested, String.toList_append] at hlist
  exact String.toList_inj.mp (List.append_cancel_left hlist)

/-- One level down no qualifier is that of the join, which is shorter. -/
theorem Join.nested_ne_qualifier (join : Join) (qualifier : String) :
    join.nested qualifier ≠ join.qualifier := by
  intro h
  have hlength := congrArg String.length h
  simp only [nested, String.length_append] at hlength
  have hunderscore : "_".length = 1 := rfl
  omega

namespace Scope

/-- The related table goes by the qualifier of the join. -/
theorem apply_renamesBehind_table (join : Join) (related : Scope) :
    (renamesBehind join related).apply related.table = join.qualifier := by
  simp [Renames.apply, renamesBehind]

/-- A table that the related scope joins goes one level down, unless it hides the related table. -/
theorem apply_renamesBehind_nested (join : Join) {related : Scope} {qualifier : String}
    (hmem : qualifier ∈ related.joins.map Join.qualifier) (hne : qualifier ≠ related.table) :
    (renamesBehind join related).apply qualifier = join.nested qualifier := by
  have hlookup : ∀ joins : List Join, qualifier ∈ joins.map Join.qualifier →
      (joins.map fun nested => (nested.qualifier, join.nested nested.qualifier)).lookup qualifier =
        some (join.nested qualifier) := by
    intro joins
    induction joins with
    | nil => exact fun h => absurd h List.not_mem_nil
    | cons first rest ih =>
      intro h
      by_cases heq : qualifier = first.qualifier
      · simp [heq]
      · have hrest : qualifier ∈ rest.map Join.qualifier := by simpa [heq] using h
        simpa [List.lookup_cons, beq_false_of_ne heq] using ih hrest
  have hbehind : (renamesBehind join related).lookup qualifier = some (join.nested qualifier) := by
    rw [renamesBehind, List.lookup_cons, beq_false_of_ne hne]
    exact hlookup related.joins hmem
  rw [Renames.apply, hbehind, Option.getD_some]

/-- Different qualifiers of a related scope get different new ones. -/
theorem injOn_renamesBehind (join : Join) {related : Scope} :
    ∀ first ∈ related.names, ∀ second ∈ related.names,
      (renamesBehind join related).apply first = (renamesBehind join related).apply second →
        first = second := by
  have hcases : ∀ qualifier ∈ related.names, qualifier = related.table ∨
      qualifier ≠ related.table ∧
        (renamesBehind join related).apply qualifier = join.nested qualifier := by
    intro qualifier hmem
    by_cases heq : qualifier = related.table
    · exact Or.inl heq
    · have hjoined := (List.mem_cons.mp hmem).resolve_left heq
      exact Or.inr ⟨heq, apply_renamesBehind_nested join hjoined heq⟩
  intro first hfirst second hsecond h
  rcases hcases first hfirst with rfl | ⟨-, hnested⟩
  · rcases hcases second hsecond with rfl | ⟨-, hnested⟩
    · rfl
    · -- what the join nests is longer than its own qualifier
      rw [apply_renamesBehind_table, hnested] at h
      exact absurd h.symm (join.nested_ne_qualifier second)
  · rcases hcases second hsecond with rfl | ⟨-, hother⟩
    · rw [apply_renamesBehind_table, hnested] at h
      exact absurd h (join.nested_ne_qualifier first)
    · rw [hnested, hother] at h
      exact join.nested_injective h

end Scope

/-! ## Lines under new qualifiers -/

/-- A line shows another one under new qualifiers: what the other one knows under some qualifiers,
it knows under the new ones. -/
def View.Shows {Value : Type} (renames : Renames) (names : List String)
    (view other : View Value) : Prop :=
  ∀ qualifier ∈ names, view.named (renames.apply qualifier) = other.named qualifier

section

variable {Value : Type} [DecidableEq Value] {data : Data Value} {renames : Renames}

/-- Joining a table under the new qualifiers puts the same rows beside a line as joining it under
the old ones, and a row more keeps one line showing the other. -/
theorem View.Shows.step {names : List String} {join : Join} {view other : View Value}
    (h : view.Shows renames names other)
    (hinj : ∀ qualifier ∈ names, renames.apply qualifier ≠ renames.apply join.qualifier)
    (hleft : join.left.qualifier = join.qualifier) (hright : join.right.qualifier ∈ names) :
    (join.renamed renames).partners data view = join.partners data other ∧
      ∀ row, (view.bind (join.renamed renames).qualifier row).Shows renames
        (names ++ [join.qualifier]) (other.bind join.qualifier row) := by
  have hne : ∀ qualifier ∈ names, qualifier ≠ join.qualifier := fun qualifier hmem heq =>
    hinj qualifier hmem (congrArg renames.apply heq)
  constructor
  · have hleft' : (join.renamed renames).left.qualifier = (join.renamed renames).qualifier :=
      congrArg renames.apply hleft
    have hvalue : view.value (join.renamed renames).right = other.value join.right :=
      congrFun (h _ hright) join.right.name
    rw [partners_eq_beside hleft' (hinj _ hright), partners_eq_beside hleft (hne _ hright), hvalue]
    rfl
  · intro row qualifier hmem
    rcases List.mem_append.mp hmem with hmem | hmem
    · rw [View.named_bind_of_ne _ _ (hne _ hmem), ← h _ hmem]
      exact View.named_bind_of_ne _ _ (hinj _ hmem)
    · rw [List.mem_singleton.mp hmem, View.named_bind_self]
      exact View.named_bind_self ..

/-- The lines under the new qualifiers show the lines under the old ones, one for one. -/
theorem View.Shows.forall₂_joined {names : List String} {joins : List Join}
    {view other : View Value} (h : view.Shows renames names other)
    (hordered : JoinsOrdered names joins)
    (hinj : (names ++ joins.map Join.qualifier).Pairwise fun first second =>
      renames.apply first ≠ renames.apply second) :
    List.Forall₂ (View.Shows renames (names ++ joins.map Join.qualifier))
      (joined data (joins.map (Join.renamed renames)) view) (joined data joins other) := by
  induction joins generalizing names view other with
  | nil =>
    rw [List.map_nil, List.map_nil, List.append_nil, joined, joined]
    exact List.Forall₂.cons h List.Forall₂.nil
  | cons join rest ih =>
    obtain ⟨hleft, hright, hrest⟩ := hordered
    have hnew : ∀ qualifier ∈ names, renames.apply qualifier ≠ renames.apply join.qualifier :=
      fun qualifier hmem =>
        (List.pairwise_append.mp hinj).2.2 qualifier hmem _ (List.mem_cons_self ..)
    obtain ⟨hpartners, hbind⟩ := h.step hnew hleft hright
    rw [List.map_cons, List.append_cons] at hinj
    rw [List.map_cons, List.map_cons, List.append_cons, joined, joined, hpartners]
    have hsame : List.Forall₂ (· = ·) (join.partners data other) (join.partners data other) :=
      List.forall₂_refl _
    -- the first join gives both lines the same rows; with each of them one line shows the other
    refine List.rel_flatMap hsame ?_
    rintro row _ rfl
    exact ih (hbind row) hrest hinj

/-- A line keeps what it shows: renamed conditions about columns are true on it where the original
ones are true on the other line. -/
theorem View.Shows.truth_eq {names : List String} {view other : View Value}
    (h : view.Shows renames names other) {condition : Condition}
    (hcolumns : ∀ operand ∈ condition.operands, ∃ source, operand = .column source)
    (hdeclared : ∀ operand ∈ condition.operands, operand.DeclaredIn names) :
    (condition.renamed renames).truth data view = condition.truth data other := by
  refine condition.truth_renamed fun operand hmem => ?_
  obtain ⟨source, rfl⟩ := hcolumns operand hmem
  exact congrFun (h _ (hdeclared _ hmem)) source.name

end

end Sift
