import Sift.Proofs.AddedJoins

/-!
# Lines of joined tables

Joining a table leaves the row of the scope's own table and the rows under other qualifiers as they
are, and never loses a line. For an ordered list of joins under qualifiers that differ, the lines
can be told without the order of the joins: under each qualifier stands a row that the join puts
beside the row it compares with (`mem_views_iff`). So a line of a scope with more joins is a line of
a scope with fewer of them once the rows under the other qualifiers are left out.
-/

namespace Sift

section

variable {Value : Type} [DecidableEq Value] {data : Data Value}

/-! ## Joining one table after the other -/

/-- A join always puts a row beside a view, if need be one of nulls. -/
theorem partners_ne_nil (join : Join) (view : View Value) : join.partners data view ≠ [] := by
  unfold Join.partners
  split
  · exact List.cons_ne_nil _ _
  · next h => exact fun hnil => h (List.isEmpty_iff.mpr hnil)

/-- A line begins with a partner of the first join and goes on with the others. -/
theorem mem_joined_cons {join : Join} {rest : List Join} {view line : View Value} :
    line ∈ joined data (join :: rest) view ↔
      ∃ row ∈ join.partners data view, line ∈ joined data rest (view.bind join.qualifier row) := by
  rw [joined, List.mem_flatMap]

/-- Joins can be followed in two portions. -/
theorem mem_joined_append {first second : List Join} {view line : View Value} :
    line ∈ joined data (first ++ second) view ↔
      ∃ between ∈ joined data first view, line ∈ joined data second between := by
  induction first generalizing view with
  | nil => simp [joined]
  | cons join rest ih =>
    rw [List.cons_append, mem_joined_cons]
    constructor
    · rintro ⟨row, hrow, hline⟩
      obtain ⟨between, hbetween, hline⟩ := ih.mp hline
      exact ⟨between, mem_joined_cons.mpr ⟨row, hrow, hbetween⟩, hline⟩
    · rintro ⟨between, hbetween, hline⟩
      obtain ⟨row, hrow, hbetween⟩ := mem_joined_cons.mp hbetween
      exact ⟨row, hrow, ih.mpr ⟨between, hbetween, hline⟩⟩

/-- No line is lost: every view becomes at least one line. -/
theorem exists_mem_joined (joins : List Join) (view : View Value) :
    ∃ line, line ∈ joined data joins view := by
  induction joins generalizing view with
  | nil => exact ⟨view, List.mem_singleton_self view⟩
  | cons join rest ih =>
    have hne : join.partners data view ≠ [] := partners_ne_nil join view
    obtain ⟨row, hrow⟩ := List.exists_mem_of_ne_nil _ hne
    obtain ⟨line, hline⟩ := ih (view.bind join.qualifier row)
    exact ⟨line, mem_joined_cons.mpr ⟨row, hrow, hline⟩⟩

/-- Joining keeps the row of the scope's own table. -/
theorem base_of_mem_joined {joins : List Join} {view line : View Value}
    (h : line ∈ joined data joins view) : line.base = view.base := by
  induction joins generalizing view with
  | nil => rw [List.mem_singleton.mp h]
  | cons join rest ih =>
    obtain ⟨row, -, hline⟩ := mem_joined_cons.mp h
    rw [ih hline, View.base_bind]

/-- Joining keeps what is known under other qualifiers. -/
theorem named_of_mem_joined {joins : List Join} {view line : View Value}
    (h : line ∈ joined data joins view) {qualifier : String}
    (hnew : qualifier ∉ joins.map Join.qualifier) :
    line.named qualifier = view.named qualifier := by
  induction joins generalizing view with
  | nil => rw [List.mem_singleton.mp h]
  | cons join rest ih =>
    obtain ⟨row, -, hline⟩ := mem_joined_cons.mp h
    rw [List.map_cons, List.mem_cons, not_or] at hnew
    rw [ih hline hnew.2, View.named_bind_of_ne view row hnew.1]

theorem mem_views {table : String} {joins : List Join} {line : View Value} :
    line ∈ views data table joins ↔
      ∃ row ∈ data.rows table, line ∈ joined data joins (View.start table row) := by
  rw [views, List.mem_flatMap]

/-- A line begins with a row of the scope's table. -/
theorem base_mem_rows {table : String} {joins : List Join} {line : View Value}
    (h : line ∈ views data table joins) : line.base ∈ data.rows table := by
  obtain ⟨row, hrow, hline⟩ := mem_views.mp h
  rw [base_of_mem_joined hline]
  exact hrow

/-- The scope's own qualifier stands for its own row, unless a join takes it. -/
theorem named_table {table : String} {joins : List Join} {line : View Value}
    (h : line ∈ views data table joins) (hnew : table ∉ joins.map Join.qualifier) :
    line.named table = line.base := by
  obtain ⟨row, -, hline⟩ := mem_views.mp h
  rw [named_of_mem_joined hline hnew, base_of_mem_joined hline, View.named_start_self,
    View.base_start]

/-! ## Lines that agree -/

/-- Two lines agree on some qualifiers if they have the same own row and the same rows under
these. -/
def View.AgreeOn (names : List String) (view other : View Value) : Prop :=
  view.base = other.base ∧ ∀ qualifier ∈ names, view.named qualifier = other.named qualifier

omit [DecidableEq Value] in
/-- An operand has one value on lines that agree on its qualifier. An expression looks at the own
row only. -/
theorem View.AgreeOn.value_eq {names : List String} {view other : View Value}
    (h : view.AgreeOn names other) {operand : Operand} (hoperand : operand.DeclaredIn names) :
    operand.value data view = operand.value data other := by
  cases operand with
  | column source => rw [Operand.value, Operand.value, View.value, View.value, h.2 _ hoperand]
  | expression sql => rw [Operand.value, Operand.value, h.1]

/-- A scope does not tell lines apart that agree on its qualifiers. -/
theorem View.AgreeOn.keeps_iff {scope : Scope} {view other : View Value}
    (h : view.AgreeOn scope.names other) (hdeclared : scope.OperandsDeclared) :
    scope.Keeps data view ↔ scope.Keeps data other := by
  refine forall₂_congr fun condition hcondition => ?_
  rw [Condition.truth_congr fun operand hoperand => h.value_eq (hdeclared operand ?_)]
  exact mem_operandsOf.mpr ⟨condition, hcondition, hoperand⟩

/-! ## Ordered joins -/

variable (data) in
/-- The rows that a join puts beside a row: those whose joined column equals `key`, or a row of
nulls for none. -/
def Join.beside (join : Join) (key : Option Value) : List (Row Value) :=
  let linked := (data.rows join.table).filter fun row => Truth.equal (row join.left.name) key = .yes
  if linked.isEmpty then [Row.null] else linked

/-- What a join puts beside a line depends on the column that it compares with. -/
theorem partners_eq_beside {join : Join} (hleft : join.left.qualifier = join.qualifier)
    (hright : join.right.qualifier ≠ join.qualifier) (view : View Value) :
    join.partners data view = join.beside data (view.value join.right) := by
  have hfound : join.found data view = (data.rows join.table).filter fun row =>
      Truth.equal (row join.left.name) (view.value join.right) = .yes := by
    unfold Join.found
    refine List.filter_congr fun row _ => ?_
    rw [View.value, View.value, hleft, View.named_bind_self, View.named_bind_of_ne view row hright,
      View.value]
  rw [Join.partners, hfound, Join.beside]

/-- The first of ordered joins compares with a row that it does not take the place of. -/
theorem partners_of_ordered {names : List String} {join : Join} {rest : List Join}
    (hordered : JoinsOrdered names (join :: rest))
    (hnodup : (names ++ (join :: rest).map Join.qualifier).Nodup) (view : View Value) :
    join.partners data view = join.beside data (view.value join.right) := by
  obtain ⟨hleft, hright, -⟩ := hordered
  have hne : join.right.qualifier ≠ join.qualifier := fun heq =>
    List.disjoint_of_nodup_append hnodup hright (heq ▸ List.mem_cons_self ..)
  exact partners_eq_beside hleft hne view

/-- Where something is linked, all that is linked and nothing else is put beside. -/
theorem mem_beside {join : Join} {key : Option Value} {row : Row Value}
    (h : ∃ other ∈ data.rows join.table, Truth.equal (other join.left.name) key = .yes) :
    row ∈ join.beside data key ↔
      row ∈ data.rows join.table ∧ Truth.equal (row join.left.name) key = .yes := by
  obtain ⟨other, hother, hequal⟩ := h
  have hlinked : other ∈ (data.rows join.table).filter fun row =>
      Truth.equal (row join.left.name) key = .yes :=
    List.mem_filter.mpr ⟨hother, decide_eq_true hequal⟩
  rw [Join.beside, if_neg fun hnil => List.ne_nil_of_mem hlinked (List.isEmpty_iff.mp hnil),
    List.mem_filter, decide_eq_true_eq]

/-- Where nothing is linked, a row of nulls is put beside. -/
theorem beside_eq_null {join : Join} {key : Option Value}
    (h : ∀ row ∈ data.rows join.table, Truth.equal (row join.left.name) key ≠ .yes) :
    join.beside data key = [Row.null] := by
  have hlinked : ((data.rows join.table).filter fun row =>
      Truth.equal (row join.left.name) key = .yes) = [] :=
    List.filter_eq_nil_iff.mpr fun row hrow => by simpa using h row hrow
  rw [Join.beside, hlinked, List.isEmpty_nil, if_pos rfl]

/-- Nothing is linked to null. -/
theorem beside_none (join : Join) : join.beside data none = [Row.null] := by
  refine beside_eq_null fun row _ => ?_
  cases row join.left.name <;> simp [Truth.equal]

/-- What an ordered list of joins gives, whatever their order: a line keeps the rows under other
qualifiers, and under each new qualifier it has a row that the join puts beside the line. -/
theorem mem_joined_iff {names : List String} {joins : List Join} {view line : View Value}
    (hordered : JoinsOrdered names joins) (hnodup : (names ++ joins.map Join.qualifier).Nodup) :
    line ∈ joined data joins view ↔
      line.base = view.base ∧
      (∀ qualifier, qualifier ∉ joins.map Join.qualifier →
        line.named qualifier = view.named qualifier) ∧
      ∀ join ∈ joins, line.named join.qualifier ∈ join.beside data (line.value join.right) := by
  induction joins generalizing names view with
  | nil =>
    rw [joined, List.mem_singleton]
    constructor
    · rintro rfl
      simp
    · rintro ⟨hbase, hnamed, -⟩
      exact View.ext hbase (funext fun qualifier => hnamed qualifier List.not_mem_nil)
  | cons join rest ih =>
    have hpartners : ∀ row : View Value, join.partners data row =
        join.beside data (row.value join.right) := partners_of_ordered hordered hnodup
    obtain ⟨-, hright, hrest⟩ := hordered
    have hright_new : join.right.qualifier ∉ (join :: rest).map Join.qualifier :=
      List.disjoint_of_nodup_append hnodup hright
    rw [List.map_cons, List.append_cons] at hnodup
    have hrest_new : join.qualifier ∉ rest.map Join.qualifier := fun hmem =>
      List.disjoint_of_nodup_append hnodup (List.mem_append_right _ (List.mem_singleton_self _))
        hmem
    simp only [mem_joined_cons, ih hrest hnodup, hpartners]
    -- the joins after the first one leave what it compares and the row that it gives as they are
    constructor
    · rintro ⟨row, hrow, hbase, hnamed, hbeside⟩
      have hold : ∀ qualifier, qualifier ∉ (join :: rest).map Join.qualifier →
          line.named qualifier = view.named qualifier := by
        intro qualifier hqualifier
        rw [List.map_cons, List.mem_cons, not_or] at hqualifier
        rw [hnamed qualifier hqualifier.2, View.named_bind_of_ne view row hqualifier.1]
      refine ⟨hbase, hold, List.forall_mem_cons.mpr ⟨?_, hbeside⟩⟩
      rw [hnamed _ hrest_new, View.named_bind_self, View.value, hold _ hright_new]
      exact hrow
    · rintro ⟨hbase, hold, hbeside⟩
      -- the row that the first join gave is the one under its qualifier, as no later join takes it
      obtain ⟨hjoin, hbeside⟩ := List.forall_mem_cons.mp hbeside
      refine ⟨line.named join.qualifier, ?_, hbase, ?_, hbeside⟩
      · rwa [View.value, hold _ hright_new] at hjoin
      · intro qualifier hqualifier
        by_cases heq : qualifier = join.qualifier
        · rw [heq, View.named_bind_self]
        · rw [View.named_bind_of_ne view _ heq]
          exact hold qualifier (by simpa [heq] using hqualifier)

/-- Ordered lists of the same joins give the same lines, in whatever order they list them. -/
theorem mem_joined_congr {names : List String} {joins others : List Join} {view line : View Value}
    (hordered : JoinsOrdered names joins) (hnodup : (names ++ joins.map Join.qualifier).Nodup)
    (hordered_others : JoinsOrdered names others)
    (hnodup_others : (names ++ others.map Join.qualifier).Nodup)
    (hsame : ∀ join, join ∈ joins ↔ join ∈ others) :
    line ∈ joined data joins view ↔ line ∈ joined data others view := by
  have hqualifiers : ∀ qualifier,
      qualifier ∈ joins.map Join.qualifier ↔ qualifier ∈ others.map Join.qualifier := by
    intro qualifier
    simp only [List.mem_map, hsame]
  rw [mem_joined_iff hordered hnodup, mem_joined_iff hordered_others hnodup_others]
  simp only [hqualifiers, hsame]

/-- What the lines of a scope are, whatever the order of its joins: under its own name stands a row
of its table, and under each qualifier a row that the join puts beside it. -/
theorem mem_views_iff {table : String} {joins : List Join} {line : View Value}
    (hordered : JoinsOrdered [table] joins) (hnodup : (table :: joins.map Join.qualifier).Nodup) :
    line ∈ views data table joins ↔
      line.base ∈ data.rows table ∧ line.named table = line.base ∧
      (∀ qualifier, qualifier ∉ table :: joins.map Join.qualifier →
        line.named qualifier = Row.null) ∧
      ∀ join ∈ joins, line.named join.qualifier ∈ join.beside data (line.value join.right) := by
  have hnew : table ∉ joins.map Join.qualifier := (List.nodup_cons.mp hnodup).1
  rw [mem_views]
  constructor
  · rintro ⟨row, hrow, hline⟩
    obtain ⟨hbase, hnamed, hbeside⟩ := (mem_joined_iff hordered hnodup).mp hline
    rw [View.base_start] at hbase
    refine ⟨hbase ▸ hrow, ?_, ?_, hbeside⟩
    · rw [hnamed table hnew, View.named_start_self, hbase]
    · intro qualifier hqualifier
      rw [List.mem_cons, not_or] at hqualifier
      rw [hnamed qualifier hqualifier.2, View.named_start_of_ne row hqualifier.1]
  · rintro ⟨hrow, htable, hnull, hbeside⟩
    refine ⟨line.base, hrow, (mem_joined_iff hordered hnodup).mpr ⟨rfl, ?_, hbeside⟩⟩
    intro qualifier hqualifier
    by_cases heq : qualifier = table
    · rw [heq, htable, View.named_start_self]
    · rw [View.named_start_of_ne _ heq]
      exact hnull qualifier (by simpa [heq] using hqualifier)

end

end Sift
