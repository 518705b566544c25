import Sift.Proofs.Delegation

/-!
# Shared joins

Scopes over one table may share joins, and their conjunction joins a shared table once. So a line of
the conjunction holds one row for both scopes under the qualifier of a shared join. Where such a
join is on a key of the joined table it finds at most one row, and both scopes see the row that they
see on their own. Then the conjunction selects what both select; else it may select less. Both
statements need that no qualifier is given twice.

A scope all of whose joins find at most one row makes one line of each row of its table.
-/

namespace Sift

section

variable {Value : Type} [DecidableEq Value]

/-- A join finds at most one row, as the joined column is a key of the joined table. -/
def Join.ToOne (data : Data Value) (join : Join) : Prop :=
  ∀ first ∈ data.rows join.table, ∀ second ∈ data.rows join.table,
    first join.left.name ≠ none → first join.left.name = second join.left.name → first = second

/-- A well scoped scope of the rows of a table that joins nothing twice. -/
structure Scope.ScopedOver (scope : Scope) (table : Table) : Prop where
  overTable : scope.Over table
  wellScoped : scope.WellScoped
  nodup : scope.joins.Nodup

/-- A scope over a table that makes one line of each row. -/
structure Scope.OneLine (data : Data Value) (table : Table) (scope : Scope) : Prop where
  overTable : scope.Over table
  wellScoped : scope.WellScoped
  toOne : ∀ join ∈ scope.joins, join.ToOne data
  nodup : scope.joins.Nodup

variable {data : Data Value}

/-- A join on a key puts one row beside a line: the one that it finds, or the row of nulls. -/
theorem Join.ToOne.beside_unique {join : Join} (h : join.ToOne data) {key : Option Value}
    {first second : Row Value} (hfirst : first ∈ join.beside data key)
    (hsecond : second ∈ join.beside data key) : first = second := by
  by_cases hlinked :
      ∃ other ∈ data.rows join.table, Truth.equal (other join.left.name) key = .yes
  · obtain ⟨hrow, hequal⟩ := (mem_beside hlinked).mp hfirst
    obtain ⟨hrow', hequal'⟩ := (mem_beside hlinked).mp hsecond
    obtain ⟨value, hvalue, rfl⟩ := Truth.equal_eq_yes.mp hequal
    obtain ⟨value', hvalue', heq⟩ := Truth.equal_eq_yes.mp hequal'
    refine h first hrow second hrow' (hvalue ▸ Option.some_ne_none value) ?_
    rw [hvalue, hvalue', heq]
  · have hnull : join.beside data key = [Row.null] :=
      beside_eq_null fun other hother hequal => hlinked ⟨other, hother, hequal⟩
    rw [hnull, List.mem_singleton] at hfirst hsecond
    rw [hfirst, hsecond]

/-! ## Parts of a scope -/

/-- The line without the rows under other qualifiers. -/
def View.restrict (names : List String) (view : View Value) : View Value :=
  ⟨view.base, fun qualifier => if qualifier ∈ names then view.named qualifier else Row.null⟩

omit [DecidableEq Value] in
theorem View.agreeOn_restrict (names : List String) (view : View Value) :
    view.AgreeOn names (view.restrict names) :=
  ⟨rfl, fun _ hmem => (if_pos hmem).symm⟩

/-- A part of a scope: a scope over the same table with some of its joins. -/
structure Scope.PartOf (part whole : Scope) : Prop where
  table_eq : part.table = whole.table
  joins_subset : part.joins ⊆ whole.joins
  joins_nodup : part.joins.Nodup

/-- A part gives no qualifier twice if the whole does not. -/
theorem Scope.PartOf.names_nodup {part whole : Scope} (h : part.PartOf whole)
    (hnodup : whole.names.Nodup) : part.names.Nodup := by
  obtain ⟨htable, hjoins⟩ := List.nodup_cons.mp hnodup
  refine List.nodup_cons.mpr ⟨?_, ?_⟩
  · rw [h.table_eq]
    exact fun hmem => htable (List.map_subset _ h.joins_subset hmem)
  · refine h.joins_nodup.map_on fun first hfirst second hsecond heq => ?_
    exact List.inj_on_of_nodup_map hjoins (h.joins_subset hfirst) (h.joins_subset hsecond) heq

/-- A line of the whole, without the rows that a part does not join, is a line of the part. -/
theorem Scope.PartOf.restrict_mem_views {part whole : Scope} (h : part.PartOf whole)
    (hpart : JoinsOrdered [part.table] part.joins) (hwhole : JoinsOrdered [whole.table] whole.joins)
    (hnodup : whole.names.Nodup) {line : View Value}
    (hline : line ∈ views data whole.table whole.joins) :
    line.restrict part.names ∈ views data part.table part.joins := by
  obtain ⟨hrow, htable, -, hbeside⟩ := (mem_views_iff hwhole hnodup).mp hline
  rw [← h.table_eq] at hrow htable
  have hnamed : ∀ qualifier ∈ part.names,
      (line.restrict part.names).named qualifier = line.named qualifier := fun _ hmem => if_pos hmem
  refine (mem_views_iff hpart (h.names_nodup hnodup)).mpr ⟨hrow, ?_, ?_, ?_⟩
  · rw [hnamed _ (List.mem_cons_self ..), htable]
    rfl
  · exact fun qualifier hnot => if_neg hnot
  · intro join hjoin
    have hvalue : (line.restrict part.names).value join.right = line.value join.right :=
      congrFun (hnamed _ (hpart.right_mem hjoin)) join.right.name
    rw [hnamed _ (List.mem_cons_of_mem _ (List.mem_map_of_mem hjoin)), hvalue]
    exact hbeside join (h.joins_subset hjoin)

theorem Scope.partOf_conjoin_left {scope : Scope} (other : Scope) (h : scope.joins.Nodup) :
    scope.PartOf (scope.conjoin other) :=
  ⟨rfl, fun _ hmem => mem_addJoins.mpr (Or.inl hmem), h⟩

/-- The second scope of a conjunction is a part of it even where a join is shared, which is there
once. -/
theorem Scope.partOf_conjoin_right {scope other : Scope} (htable : other.table = scope.table)
    (h : other.joins.Nodup) : other.PartOf (scope.conjoin other) :=
  ⟨htable, fun _ hmem => mem_addJoins.mpr (Or.inr hmem), h⟩

/-! ## Conjunctions -/

namespace Scope

/-- Operands of both scopes are about tables of the conjunction. -/
theorem operandsDeclared_conjoin {scope other : Scope} (htable : other.table = scope.table)
    (h : scope.OperandsDeclared) (hother : other.OperandsDeclared) :
    (scope.conjoin other).OperandsDeclared := by
  intro operand hoperand
  rw [conditions_conjoin, operandsOf_append] at hoperand
  rcases List.mem_append.mp hoperand with hoperand | hoperand
  · exact (h operand hoperand).mono (scope.names_subset_conjoin other)
  · exact (hother operand hoperand).mono (names_subset_conjoin_right htable)

theorem scopedOver_all (table : Table) : (Scope.all table).ScopedOver table :=
  ⟨⟨rfl, rfl, rfl⟩, ⟨fun _ h => absurd h List.not_mem_nil, trivial⟩, List.nodup_nil⟩

/-- Narrowing by conditions about its own tables keeps a scope well scoped. -/
theorem ScopedOver.narrow {table : Table} {scope : Scope} (h : scope.ScopedOver table)
    {conditions : List Condition}
    (hdeclared : ∀ operand ∈ operandsOf conditions, operand.DeclaredIn scope.names) :
    (scope.narrow conditions).ScopedOver table := by
  refine ⟨⟨h.overTable.model_eq, h.overTable.table_eq, h.overTable.primaryKey_eq⟩,
    ⟨?_, h.wellScoped.joins⟩, h.nodup⟩
  intro operand hoperand
  rw [conditions_narrow, operandsOf_append] at hoperand
  rcases List.mem_append.mp hoperand with hoperand | hoperand
  · exact h.wellScoped.operands operand hoperand
  · exact hdeclared operand hoperand

theorem ScopedOver.same_table {table : Table} {scope other : Scope} (h : scope.ScopedOver table)
    (hother : other.ScopedOver table) : other.table = scope.table := by
  rw [hother.overTable.table_eq, h.overTable.table_eq]

/-- A conjunction of scopes that are well scoped over one table is well scoped over it. -/
theorem ScopedOver.conjoin {table : Table} {scope other : Scope} (h : scope.ScopedOver table)
    (hother : other.ScopedOver table) : (scope.conjoin other).ScopedOver table := by
  have htable := h.same_table hother
  refine ⟨⟨h.overTable.model_eq, h.overTable.table_eq, h.overTable.primaryKey_eq⟩, ⟨?_, ?_⟩, ?_⟩
  · exact operandsDeclared_conjoin htable h.wellScoped.operands hother.wellScoped.operands
  · refine h.wellScoped.joins.addJoins hother.wellScoped.joins ?_
    rw [htable]
    exact List.subset_append_left _ _
  · exact nodup_addJoins h.nodup _

/-- A line of the whole that a part keeps gives a row of the part: leaving out the rows under other
qualifiers leaves a line of the part. -/
theorem PartOf.key_mem_rows {part whole : Scope} (hpart : part.PartOf whole)
    (hscoped : part.WellScoped) (hwhole : JoinsOrdered [whole.table] whole.joins)
    (hnodup : whole.names.Nodup) {line : View Value}
    (hline : line ∈ views data whole.table whole.joins) (hkeeps : part.Keeps data line) :
    line.base part.primaryKey ∈ part.rows data := by
  refine mem_rows.mpr ⟨line.restrict part.names,
    hpart.restrict_mem_views hscoped.joins hwhole hnodup hline, ?_, rfl⟩
  rwa [← (line.agreeOn_restrict part.names).keeps_iff hscoped.operands]

/-- A conjunction of scopes over a table selects nothing that one of them does not select. -/
theorem rows_conjoin_subset {table : Table} {scope other : Scope} (h : scope.ScopedOver table)
    (hother : other.ScopedOver table) (hnodup : (scope.conjoin other).names.Nodup) :
    (scope.conjoin other).rows data ⊆ scope.rows data ∩ other.rows data := by
  have hkey : other.primaryKey = scope.primaryKey := by
    rw [hother.overTable.primaryKey_eq, h.overTable.primaryKey_eq]
  have hwhole := (h.conjoin hother).wellScoped.joins
  intro key hmem
  obtain ⟨line, hline, hkeeps, rfl⟩ := mem_rows.mp hmem
  obtain ⟨hscope, hadded⟩ := keeps_conjoin.mp hkeeps
  have hleft := partOf_conjoin_left other h.nodup
  have hright := partOf_conjoin_right (h.same_table hother) hother.nodup
  refine ⟨hleft.key_mem_rows h.wellScoped hwhole hnodup hline hscope, ?_⟩
  have hmem_other := hright.key_mem_rows hother.wellScoped hwhole hnodup hline hadded
  rwa [hkey] at hmem_other

/-! ## Shared joins to one row -/

/-- What two scopes both join finds at most one row. -/
def SharesToOne (data : Data Value) (scope other : Scope) : Prop :=
  ∀ join ∈ scope.joins, join ∈ other.joins → join.ToOne data

/-- Lines of two scopes that begin with the same row have the same rows under shared qualifiers, if
the shared joins find at most one row. -/
theorem named_eq_of_sharesToOne {scope other : Scope} (htable : other.table = scope.table)
    (hscope : JoinsOrdered [scope.table] scope.joins)
    (hother : JoinsOrdered [other.table] other.joins) (hnodup : (scope.conjoin other).names.Nodup)
    (hnames : scope.names.Nodup) (hnames_other : other.names.Nodup)
    (hshares : scope.SharesToOne data other) {first second : View Value}
    (hfirst : first ∈ views data scope.table scope.joins)
    (hsecond : second ∈ views data other.table other.joins) (hbase : first.base = second.base) :
    ∀ qualifier ∈ scope.names, qualifier ∈ other.names →
      first.named qualifier = second.named qualifier := by
  obtain ⟨-, htable_first, -, hbeside_first⟩ := (mem_views_iff hscope hnames).mp hfirst
  obtain ⟨-, htable_second, -, hbeside_second⟩ := (mem_views_iff hother hnames_other).mp hsecond
  obtain ⟨hnew, hinj⟩ := List.nodup_cons.mp hnodup
  -- along the joins of the first scope, what is named before a join agrees already
  suffices hlist : ∀ (joins : List Join) (before : List String), JoinsOrdered before joins →
      joins ⊆ scope.joins →
      (∀ qualifier ∈ before, qualifier ∈ other.names →
        first.named qualifier = second.named qualifier) →
      ∀ qualifier ∈ before ++ joins.map Join.qualifier, qualifier ∈ other.names →
        first.named qualifier = second.named qualifier by
    refine hlist scope.joins [scope.table] hscope (List.Subset.refl _) ?_
    intro qualifier hqualifier _
    rw [List.mem_singleton.mp hqualifier, htable_first, hbase, ← htable, htable_second]
  intro joins
  induction joins with
  | nil =>
    intro before _ _ hbefore
    rwa [List.map_nil, List.append_nil]
  | cons join rest ih =>
    intro before hordered hsub hbefore
    obtain ⟨-, hright, hrest⟩ := hordered
    obtain ⟨hjoin, hsub⟩ := List.cons_subset.mp hsub
    rw [List.map_cons, List.append_cons]
    refine ih _ hrest hsub fun qualifier hqualifier hmem => ?_
    rcases List.mem_append.mp hqualifier with hqualifier | hqualifier
    · exact hbefore qualifier hqualifier hmem
    · rw [List.mem_singleton.mp hqualifier] at hmem ⊢
      have hwhole : join ∈ (scope.conjoin other).joins := mem_addJoins.mpr (Or.inl hjoin)
      -- the qualifier is no table, and one join gives it
      have hshared : join ∈ other.joins := by
        rcases List.mem_cons.mp hmem with heq | hmem
        · rw [htable] at heq
          exact absurd (heq ▸ List.mem_map_of_mem hwhole) hnew
        · obtain ⟨same, hsame, heq⟩ := List.mem_map.mp hmem
          have hsame_whole : same ∈ (scope.conjoin other).joins := mem_addJoins.mpr (Or.inr hsame)
          exact List.inj_on_of_nodup_map hinj hsame_whole hwhole heq ▸ hsame
      have hvalue : first.value join.right = second.value join.right := by
        rw [View.value, View.value, hbefore _ hright (hother.right_mem hshared)]
      have hsecond_beside := hbeside_second join hshared
      rw [← hvalue] at hsecond_beside
      exact (hshares join hjoin hshared).beside_unique (hbeside_first join hjoin) hsecond_beside

/-- Lines of two scopes that begin with the same row show in one line of the conjunction, if what
the scopes share finds at most one row. -/
theorem exists_line_of_sharesToOne {table : Table} {scope other : Scope}
    (h : scope.ScopedOver table) (hother : other.ScopedOver table)
    (hshares : scope.SharesToOne data other) (hnodup : (scope.conjoin other).names.Nodup)
    {first second : View Value} (hfirst : first ∈ views data scope.table scope.joins)
    (hsecond : second ∈ views data other.table other.joins) (hbase : first.base = second.base) :
    ∃ line ∈ views data (scope.conjoin other).table (scope.conjoin other).joins,
      line.AgreeOn scope.names first ∧ line.AgreeOn other.names second := by
  have htable := h.same_table hother
  have hnames := (partOf_conjoin_left other h.nodup).names_nodup hnodup
  have hnames_other := (partOf_conjoin_right htable hother.nodup).names_nodup hnodup
  have hsame := named_eq_of_sharesToOne htable h.wellScoped.joins hother.wellScoped.joins hnodup
    hnames hnames_other hshares hfirst hsecond hbase
  obtain ⟨hrow, htable_first, hnull, hbeside⟩ :=
    (mem_views_iff h.wellScoped.joins hnames).mp hfirst
  obtain ⟨-, -, hnull_other, hbeside_other⟩ :=
    (mem_views_iff hother.wellScoped.joins hnames_other).mp hsecond
  -- the rows of the first line, and those of the second one under its own qualifiers
  set line : View Value :=
    ⟨first.base, fun qualifier =>
      if qualifier ∈ scope.names then first.named qualifier else second.named qualifier⟩
  have hleft : line.AgreeOn scope.names first := ⟨rfl, fun _ hmem => if_pos hmem⟩
  have hright : line.AgreeOn other.names second := by
    refine ⟨hbase, fun qualifier hmem => ?_⟩
    by_cases hscope : qualifier ∈ scope.names
    · exact (hleft.2 qualifier hscope).trans (hsame qualifier hscope hmem)
    · exact if_neg hscope
  refine ⟨line, (mem_views_iff (h.conjoin hother).wellScoped.joins hnodup).mpr ?_, hleft, hright⟩
  refine ⟨hrow, (hleft.2 _ (List.mem_cons_self ..)).trans htable_first, ?_, ?_⟩
  · intro qualifier hnot
    have hscope : qualifier ∉ scope.names := fun hmem =>
      hnot (List.cons_subset_cons _ (List.map_subset _ (prefix_addJoins _ _).subset) hmem)
    have hadded : qualifier ∉ other.names := by
      rw [names, htable]
      exact fun hmem => hnot (List.cons_subset_cons _
        (List.map_subset _ fun _ hjoin => mem_addJoins.mpr (Or.inr hjoin)) hmem)
    exact (if_neg hscope).trans (hnull_other qualifier hadded)
  · intro join hjoin
    rcases mem_addJoins.mp hjoin with hjoin | hjoin
    · have hqualifier : join.qualifier ∈ scope.names :=
        List.mem_cons_of_mem _ (List.mem_map_of_mem hjoin)
      rw [View.value, hleft.2 _ hqualifier, hleft.2 _ (h.wellScoped.joins.right_mem hjoin)]
      exact hbeside join hjoin
    · have hqualifier : join.qualifier ∈ other.names :=
        List.mem_cons_of_mem _ (List.mem_map_of_mem hjoin)
      rw [View.value, hright.2 _ hqualifier, hright.2 _ (hother.wellScoped.joins.right_mem hjoin)]
      exact hbeside_other join hjoin

/-- A conjunction of scopes over a table selects what both select, if what they share finds at most
one row. -/
theorem rows_conjoin_of_sharesToOne {table : Table} {scope other : Scope}
    (h : scope.ScopedOver table) (hother : other.ScopedOver table)
    (hshares : scope.SharesToOne data other) (hkeyed : data.Keyed table)
    (hnodup : (scope.conjoin other).names.Nodup) :
    (scope.conjoin other).rows data = scope.rows data ∩ other.rows data := by
  refine Set.Subset.antisymm (rows_conjoin_subset h hother hnodup) ?_
  rintro key ⟨hscope, hadded⟩
  obtain ⟨first, hfirst, hkeeps_first, rfl⟩ := mem_rows.mp hscope
  obtain ⟨second, hsecond, hkeeps_second, heq⟩ := mem_rows.mp hadded
  -- both lines begin with the row that has this key
  have hbase : first.base = second.base := by
    have hmem_first := base_mem_rows hfirst
    have hmem_second := base_mem_rows hsecond
    rw [h.overTable.table_eq] at hmem_first
    rw [hother.overTable.table_eq] at hmem_second
    rw [hother.overTable.primaryKey_eq, h.overTable.primaryKey_eq] at heq
    exact hkeyed.eq_of_key_eq hmem_first hmem_second heq.symm
  obtain ⟨line, hline, hleft, hright⟩ :=
    exists_line_of_sharesToOne h hother hshares hnodup hfirst hsecond hbase
  refine mem_rows.mpr ⟨line, hline, keeps_conjoin.mpr ⟨?_, ?_⟩, by rw [hleft.1]; rfl⟩
  · exact (hleft.keeps_iff h.wellScoped.operands).mpr hkeeps_first
  · exact (hright.keeps_iff hother.wellScoped.operands).mpr hkeeps_second

/-! ## Scopes that make one line of each row -/

omit [DecidableEq Value] in
theorem OneLine.scopedOver {table : Table} {scope : Scope} (h : scope.OneLine data table) :
    scope.ScopedOver table :=
  ⟨h.overTable, h.wellScoped, h.nodup⟩

omit [DecidableEq Value] in
/-- A scope makes one line of each row if each of its joins finds at most one. -/
theorem ScopedOver.oneLine {table : Table} {scope : Scope} (h : scope.ScopedOver table)
    (htoOne : ∀ join ∈ scope.joins, join.ToOne data) : scope.OneLine data table :=
  ⟨h.overTable, h.wellScoped, htoOne, h.nodup⟩

omit [DecidableEq Value] in
theorem oneLine_all (table : Table) : (Scope.all table).OneLine data table :=
  (scopedOver_all table).oneLine fun _ h => absurd h List.not_mem_nil

omit [DecidableEq Value] in
theorem OneLine.narrow {table : Table} {scope : Scope} (h : scope.OneLine data table)
    {conditions : List Condition}
    (hdeclared : ∀ operand ∈ operandsOf conditions, operand.DeclaredIn scope.names) :
    (scope.narrow conditions).OneLine data table :=
  (h.scopedOver.narrow hdeclared).oneLine h.toOne

omit [DecidableEq Value] in
/-- Conjoining keeps it at one line for each row. -/
theorem OneLine.conjoin {table : Table} {scope other : Scope} (h : scope.OneLine data table)
    (hother : other.OneLine data table) : (scope.conjoin other).OneLine data table :=
  (h.scopedOver.conjoin hother.scopedOver).oneLine fun join hjoin =>
    (mem_addJoins.mp hjoin).elim (h.toOne join) (hother.toOne join)

/-- A conjunction of scopes that make one line of each row selects what both select, also where they
share joins. -/
theorem rows_conjoin {table : Table} {scope other : Scope} (h : scope.OneLine data table)
    (hother : other.OneLine data table) (hkeyed : data.Keyed table)
    (hnodup : (scope.conjoin other).names.Nodup) :
    (scope.conjoin other).rows data = scope.rows data ∩ other.rows data :=
  rows_conjoin_of_sharesToOne h.scopedOver hother.scopedOver (fun join hjoin _ => h.toOne join hjoin)
    hkeyed hnodup

end Scope

end

end Sift
