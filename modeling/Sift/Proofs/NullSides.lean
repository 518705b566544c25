import Sift.Proofs.AssociationPaths

/-!
# The sides of null

An inverted filter divides the rows of a table in two: what the plain filter selects of all rows is on
the plain side, and everything else is on the inverted side. On which side a row is depends on the
values that the filter reads for it. A filter of the table itself reads one value. A filter along
associations reads one for each row at the end of them, and where an association leads nowhere it
reads from a row of nulls.

Null is looked for by one operator with one parameter. A filter with these arguments selects the rows
for which it reads a null, so they are on the plain side. With any other arguments it needs a value
that is not null, so the rows for which it reads nulls alone are on the inverted side; among them are
those without related rows, if the filter ends in a column. What an expression gives behind
associations is for the database to say, whether there are related rows or not.

All this is told of clear filters. If a qualifier hides the table where a filter starts, the statement
is ambiguous.
-/

namespace Sift

/-- An operator with a parameter looks for null. -/
def SeeksNull (operator : Operator) (param : Json) : Prop :=
  operator = .equals ∧ param.isNull = true

instance (operator : Operator) (param : Json) : Decidable (SeeksNull operator param) :=
  inferInstanceAs (Decidable (_ ∧ _))

/-- A filter that ends in a column and not in an expression. -/
def Filter.EndsAtColumn : Filter → Prop
  | .own _ target => ∃ name, target = .column name
  | .through _ _ next => next.EndsAtColumn

section

variable {Value : Type} [DecidableEq Value] (data : Data Value)

/-! ## What a filter reads -/

/-- The value of a target on a row. An expression is computed on the row where the filter starts. -/
def Target.valueOn (start row : Row Value) : Target → Option Value
  | .column name => row name
  | .expression sql => data.expression sql start

/-- The rows that a join finds for a key. -/
def Join.linked (join : Join) (key : Option Value) : List (Row Value) :=
  (data.rows join.table).filter fun row => Truth.equal (row join.left.name) key = .yes

/-- The rows at the end of the associations that a filter follows from a row. -/
def Filter.rowsAtEnd : Filter → Row Value → List (Row Value)
  | .own _ _, row => [row]
  | .through join _ next, row =>
    (join.linked data (row join.right.name)).flatMap next.rowsAtEnd

/-- The values that a filter reads from a row on. -/
def Filter.valuesFrom (start : Row Value) : Filter → Row Value → List (Option Value)
  | .own _ target, row => [target.valueOn data start row]
  | .through join _ next, row =>
    (join.beside data (row join.right.name)).flatMap (next.valuesFrom start)

/-- The values that a filter reads for a row of the table where it starts. -/
def Filter.values (filter : Filter) (row : Row Value) : List (Option Value) :=
  filter.valuesFrom data row row

variable {data}

/-- A filter reads at least one value, as an association that leads nowhere leads to nulls. -/
theorem Filter.valuesFrom_ne_nil (start : Row Value) (filter : Filter) (row : Row Value) :
    filter.valuesFrom data start row ≠ [] := by
  induction filter generalizing row with
  | own types target => exact List.cons_ne_nil _ _
  | through join related next ih =>
    have hbeside : join.beside data (row join.right.name) ≠ [] := by
      unfold Join.beside
      dsimp only
      split
      · exact List.cons_ne_nil _ _
      · next h => exact fun hnil => h (List.isEmpty_iff.mpr hnil)
    obtain ⟨beside, hmem⟩ := List.exists_mem_of_ne_nil _ hbeside
    obtain ⟨value, hvalue⟩ := List.exists_mem_of_ne_nil _ (ih beside)
    exact List.ne_nil_of_mem (List.mem_flatMap.mpr ⟨beside, hmem, hvalue⟩)

/-- From a row of nulls a filter that ends in a column reads nulls alone. -/
theorem Filter.EndsAtColumn.valuesFrom_null {filter : Filter} (h : filter.EndsAtColumn)
    (start : Row Value) : ∀ value ∈ filter.valuesFrom data start Row.null, value = none := by
  induction filter with
  | own types target =>
    obtain ⟨name, rfl⟩ := h
    exact fun value hvalue => List.mem_singleton.mp hvalue
  | through join related next ih =>
    have hbeside : join.beside data (Row.null join.right.name) = [Row.null] := beside_none join
    rw [valuesFrom, hbeside, List.flatMap_singleton]
    exact ih h

/-- Where no row is at the end of the associations, a filter that ends in a column reads nulls
alone. -/
theorem Filter.EndsAtColumn.valuesFrom_eq_none {filter : Filter} (h : filter.EndsAtColumn)
    {start row : Row Value} (hnone : filter.rowsAtEnd data row = []) :
    ∀ value ∈ filter.valuesFrom data start row, value = none := by
  induction filter generalizing row with
  | own types target => exact absurd hnone (List.cons_ne_nil _ _)
  | through join related next ih =>
    have hnext : next.EndsAtColumn := h
    intro value hvalue
    obtain ⟨beside, hbeside, hvalue⟩ := List.mem_flatMap.mp hvalue
    by_cases hlinked : join.linked data (row join.right.name) = []
    · -- the association leads nowhere
      have hnull : join.beside data (row join.right.name) = [Row.null] := by
        rw [Join.beside, ← Join.linked, hlinked, List.isEmpty_nil, if_pos rfl]
      rw [hnull] at hbeside
      rw [List.mem_singleton.mp hbeside] at hvalue
      exact hnext.valuesFrom_null start value hvalue
    · -- the association leads on, and the rest of the filter leads nowhere
      have hsame : join.beside data (row join.right.name) =
          join.linked data (row join.right.name) := by
        rw [Join.beside, ← Join.linked, if_neg fun hnil => hlinked (List.isEmpty_iff.mp hnil)]
      rw [hsame] at hbeside
      exact ih hnext (List.flatMap_eq_nil_iff.mp hnone beside hbeside) value hvalue

/-! ## Operators on null -/

/-- On null the conditions of an operator hold exactly if null is looked for. -/
theorem Operator.holds_on_null {operator : Operator} {lhs : Operand} {type : Option ColumnType}
    {param : Json} {conditions : List Condition}
    (h : operator.conditions lhs type param = .ok conditions) {view : View Value}
    (hnull : lhs.value data view = none) :
    (∀ condition ∈ conditions, condition.truth data view = .yes) ↔ SeeksNull operator param := by
  cases operator with
  | equals =>
    cases h
    rw [List.forall_mem_singleton, SeeksNull]
    unfold equality
    by_cases hparam : param.isNull
    · simp [hparam, Condition.truth, hnull, Truth.ofBool]
    · -- a comparison with null is open, and what equals nothing is false
      rw [if_neg hparam]
      dsimp only
      split <;> simp [hparam, Condition.truth, hnull, Truth.test]
  | within =>
    obtain ⟨⟨low, high⟩, -, h⟩ := bind_eq_ok.mp h
    cases h
    simp [SeeksNull, Condition.truth, hnull, Truth.test]
  | contains | atLeast | atMost =>
    cases h
    simp [SeeksNull, Condition.truth, hnull, Truth.test]

/-- If null is looked for, the conditions of the operator hold on null alone. -/
theorem SeeksNull.holds_iff {operator : Operator} {param : Json} (hseeks : SeeksNull operator param)
    {lhs : Operand} {type : Option ColumnType} {conditions : List Condition}
    (h : operator.conditions lhs type param = .ok conditions) {view : View Value} :
    (∀ condition ∈ conditions, condition.truth data view = .yes) ↔ lhs.value data view = none := by
  obtain ⟨rfl, hparam⟩ := hseeks
  cases h
  have hcondition : equality lhs type param = .isNull lhs := if_pos hparam
  rw [List.forall_mem_singleton, hcondition, Condition.truth]
  cases lhs.value data view <;> simp [Truth.ofBool]

/-! ## What the scope of a filter reads -/

/-- The value of an expression depends on the scope's own row, so joins do not change it. -/
theorem exists_expression_joined {joins : List Join} {view : View Value} {sql : String}
    {value : Option Value} :
    (∃ line ∈ joined data joins view, (Operand.expression sql).value data line = value) ↔
      data.expression sql view.base = value := by
  constructor
  · rintro ⟨line, hline, hvalue⟩
    rwa [Operand.value, base_of_mem_joined hline] at hvalue
  · intro hvalue
    obtain ⟨line, hline⟩ := exists_mem_joined joins view
    exact ⟨line, hline, by rwa [Operand.value, base_of_mem_joined hline]⟩

/-- Behind a join that gives a related row, a renamed operand has the values that the operand has
on the lines which begin with this row. -/
theorem exists_value_behind {join : Join} {related : Scope} (hscoped : related.WellScoped)
    (hnodup : related.names.Nodup) {operand : Operand} (hdeclared : operand.DeclaredIn related.names)
    {view other : View Value} (hbase : view.base = other.base)
    (hview : view.named join.qualifier = other.named related.table) {value : Option Value} :
    (∃ line ∈ joined data
        (related.joins.map (Join.renamed (Scope.renamesBehind join related))) view,
      (operand.renamed (Scope.renamesBehind join related)).value data line = value) ↔
    ∃ line ∈ joined data related.joins other, operand.value data line = value := by
  cases operand with
  | column source =>
    refine exists_mem_congr_of_forall₂ (forall₂_joined_behind hscoped hnodup hview) ?_
    intro line shown hline
    have hvalue : line.value (source.renamed (Scope.renamesBehind join related)) =
        shown.value source := congrFun (hline _ hdeclared) source.name
    rw [Operand.renamed, Operand.value, Operand.value, hvalue]
  | expression sql => rw [Operand.renamed, exists_expression_joined, exists_expression_joined, hbase]

variable (data) in
/-- A scope puts the conditions of an operator on one operand, and over the lines that a view
becomes this operand has the values that a filter reads. -/
structure Scope.Reads (scope : Scope) (owner : Table) (filter : Filter) (operator : Operator)
    (param : Json) (operand : Operand) : Prop where
  conditions : ∃ type, operator.conditions operand type param = .ok scope.conditions
  declared : operand.DeclaredIn scope.names
  values : ∀ (view : View Value) (value : Option Value),
    (∃ line ∈ joined data scope.joins view, operand.value data line = value) ↔
      value ∈ filter.valuesFrom data view.base (view.named owner.name)

/-- What a target of a table selects reads the target. -/
theorem Target.reads_narrow {owner : Table} {types : ColumnTypes} {target : Target}
    {operator : Operator} {param : Json} {conditions : List Condition}
    (h : target.conditions types owner.model owner.name ⟨operator, param, false⟩ = .ok conditions) :
    ((Scope.all owner).narrow conditions).Reads data owner (.own types target) operator param
      (target.operand owner.name) := by
  obtain ⟨type, -, hconditions⟩ := bind_eq_ok.mp h
  refine ⟨⟨type, hconditions⟩, ?_, ?_⟩
  · cases target with
    | column name => exact List.mem_cons_self ..
    | expression sql => trivial
  · intro view value
    show (∃ line ∈ [view], _) ↔ value ∈ [_]
    rw [List.mem_singleton, eq_comm (a := value)]
    simp only [List.mem_singleton, exists_eq_left]
    cases target <;> rfl

/-- Behind an association a scope reads, from every row beside the owner's, what it reads from the
row on its own. -/
theorem Scope.Reads.conjoinVia {owner : Table} {association : Association} {related : Scope}
    {next : Filter} {operator : Operator} {param : Json} {operand : Operand}
    (h : related.Reads data association.related next operator param operand)
    (hscoped : related.ScopedOver association.related) (hnodup : related.names.Nodup)
    (hne : owner.name ≠ association.name) :
    ((Scope.all owner).conjoinVia (association.join owner) related).Reads data owner
      (.through (association.join owner) association.related next) operator param
      (operand.renamed (Scope.renamesBehind (association.join owner) related)) := by
  obtain ⟨type, hconditions⟩ := h.conditions
  refine ⟨⟨type, Operator.conditions_renamed hconditions _⟩, declaredIn_conjoinVia h.declared, ?_⟩
  intro view value
  set join := association.join owner
  have hpartners : join.partners data view =
      join.beside data ((view.named owner.name) join.right.name) :=
    partners_eq_beside rfl hne view
  rw [joins_conjoinVia owner join hnodup, Filter.valuesFrom, List.mem_flatMap]
  -- with a row beside the owner's, the line goes on as one that begins with this row
  have hbehind : ∀ row : Row Value,
      (∃ line ∈ joined data (related.joins.map (Join.renamed (renamesBehind join related)))
          (view.bind join.qualifier row),
        (operand.renamed (renamesBehind join related)).value data line = value) ↔
      value ∈ next.valuesFrom data view.base row := by
    intro row
    set other : View Value := ⟨view.base, fun _ => row⟩
    have hbase : (view.bind join.qualifier row).base = other.base := rfl
    have hrow : (view.bind join.qualifier row).named join.qualifier = other.named related.table :=
      View.named_bind_self ..
    rw [exists_value_behind hscoped.wellScoped hnodup h.declared hbase hrow, h.values]
  simp only [mem_joined_cons, hpartners, ← hbehind]
  constructor
  · rintro ⟨line, ⟨row, hrow, hline⟩, hvalue⟩
    exact ⟨row, hrow, line, hline, hvalue⟩
  · rintro ⟨row, hrow, line, hline, hvalue⟩
    exact ⟨line, ⟨row, hrow, hline⟩, hvalue⟩

/-- What a clear filter selects without inversion reads what the filter reads. -/
theorem Filter.Follows.exists_reads {owner : Table} {filter : Filter} (h : filter.Follows owner)
    (hclear : filter.Clear owner) {operator : Operator} {param : Json} {result : Scope}
    (hnarrow : filter.narrow ⟨operator, param, false⟩ (Scope.all owner) = .ok result) :
    ∃ operand, result.Reads data owner filter operator param operand := by
  induction h generalizing result with
  | own types target =>
    obtain ⟨conditions, hconditions, hnarrow⟩ := bind_eq_ok.mp hnarrow
    cases hnarrow
    exact ⟨_, Target.reads_narrow hconditions⟩
  | @through owner association next hnext ih =>
    obtain ⟨hnew, hclear⟩ := hclear
    obtain ⟨matched, hmatched, hnarrow⟩ := bind_eq_ok.mp hnarrow
    cases hnarrow
    have hnodup : matched.names.Nodup := (hnext.names_nodup_iff hmatched).mpr hclear
    -- the shortest way of the filter ends at the table that the association joins
    have hne : owner.name ≠ association.name := fun heq =>
      hnew (heq ▸ List.mem_map_of_mem (List.mem_cons_self ..))
    obtain ⟨operand, hreads⟩ := ih hclear hmatched
    exact ⟨_, hreads.conjoinVia (hnext.scopedOver hmatched) hnodup hne⟩

/-! ## The rows that read as null -/

section

variable {scope : Scope} {table : Table} {filter : Filter} {operator : Operator} {param : Json}
  {operand : Operand} {row : Row Value}

/-- The values of the operand on the lines of a row of the scope's table. -/
theorem Scope.Reads.mem_values (h : scope.Reads data table filter operator param operand)
    {value : Option Value} :
    value ∈ filter.values data row ↔
      ∃ line ∈ joined data scope.joins (View.start table.name row),
        operand.value data line = value := by
  rw [h.values, View.named_start_self, View.base_start, Filter.values]

/-- If null is looked for, the rows are selected for which a null is read. -/
theorem Scope.Reads.key_mem_rows_iff (h : scope.Reads data table filter operator param operand)
    (hover : scope.Over table) (hkeyed : data.Keyed table) (hrow : row ∈ data.rows table.name)
    (hseeks : SeeksNull operator param) :
    row table.primaryKey ∈ scope.rows data ↔ none ∈ filter.values data row := by
  obtain ⟨type, hconditions⟩ := h.conditions
  rw [Scope.key_mem_rows hover.table_eq hover.primaryKey_eq hkeyed hrow, h.mem_values]
  exact exists_congr fun line => and_congr_right fun _ => hseeks.holds_iff hconditions

/-- If null is not looked for, a row is selected only if a value is read for it. -/
theorem Scope.Reads.exists_value (h : scope.Reads data table filter operator param operand)
    (hover : scope.Over table) (hkeyed : data.Keyed table) (hrow : row ∈ data.rows table.name)
    (hseeks : ¬SeeksNull operator param) (hmem : row table.primaryKey ∈ scope.rows data) :
    ∃ value ∈ filter.values data row, value ≠ none := by
  obtain ⟨type, hconditions⟩ := h.conditions
  obtain ⟨line, hline, hkeeps⟩ :=
    (Scope.key_mem_rows hover.table_eq hover.primaryKey_eq hkeyed hrow).mp hmem
  refine ⟨_, h.mem_values.mpr ⟨line, hline, rfl⟩, fun hnull => hseeks ?_⟩
  exact (Operator.holds_on_null hconditions hnull).mp hkeeps

end

end

namespace Surface

/-- Posts, which may have votes and are one each, and authors of posts. -/
def draftDeclarations : List Declaration :=
  [{ Declaration.basic
        (.declare "Post" "posts" "id" [("author_id", .integer), ("votes", .integer)]) ["votes"] []
      with virtualColumns := [("one", "1")] },
    .basic (.declare "Author" "authors" "id" []) [] [⟨.hasMany, "posts", "author_id", "Post"⟩]]

def drafts : Surface :=
  (((Catalog.empty Limits.default).registerAll draftDeclarations).get? "Post").get rfl

def drafters : Surface :=
  (((Catalog.empty Limits.default).registerAll draftDeclarations).get? "Author").get rfl

/-- The authors but the first one. -/
def laterDrafters : Scope :=
  drafters.all.narrow [.compares drafters.all.key .atLeast (.number (.integer 2))]

/-- The second author has a post with votes and the third one a post without; the others have
none. -/
def draftData : Data Nat :=
  .ofTables [
    ("authors", [[("id", 1)], [("id", 2)], [("id", 3)], [("id", 4)]]),
    ("posts", [
      [("id", 1), ("author_id", 2), ("votes", 5)],
      [("id", 2), ("author_id", 3)],
      [("id", 3), ("votes", 5)]])]

/-- Memberships of members, which an association joins under the name of the members' own table. -/
def memberDeclarations : List Declaration :=
  [.basic (.declare "Membership" "memberships" "id" [("member_id", .integer), ("level", .integer)])
      ["level"] [],
    .basic (.declare "Member" "members" "id" [])
      [] [⟨.hasMany, "members", "member_id", "Membership"⟩]]

def members : Surface :=
  (((Catalog.empty Limits.default).registerAll memberDeclarations).get? "Member").get rfl

/-- The first of two members has a membership. -/
def memberData : Data Nat :=
  .ofTables [("members", [[("id", 1)], [("id", 2)]]),
    ("memberships", [[("id", 1), ("member_id", 1), ("level", 5)]])]

end Surface

end Sift
