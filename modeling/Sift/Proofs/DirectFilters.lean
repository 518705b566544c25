import Sift.Proofs.SharedJoins

/-!
# Filters that reach one row

A filter that follows foreign keys from the owner to a column, over any number of associations,
makes one line of each of the owner's rows. What a plain filter contributes does not depend on the
scope it narrows: it is conjoined with the scope.
-/

namespace Sift

/-- A filter of an owner that reaches a column of its own or, along foreign keys, of a related
table. -/
inductive Filter.ToColumn : Table → Filter → Prop
  | own {owner : Table} (types : ColumnTypes) (name : String) :
    ToColumn owner (.own types (.column name))
  | through {owner : Table} {association : Association} {next : Filter}
      (hkind : association.kind = .belongsTo) (hnext : ToColumn association.related next) :
    ToColumn owner (.through (association.join owner) association.related next)

/-- A filter of an owner that reaches a column along foreign keys, or an expression of its own. -/
def Filter.Direct (owner : Table) (filter : Filter) : Prop :=
  filter.ToColumn owner ∨ ∃ types sql, filter = .own types (.expression sql)

/-- The related tables that a filter passes through. -/
def Filter.tables : Filter → List Table
  | .own _ _ => []
  | .through _ related next => related :: next.tables

/-! ## Operands of filters -/

/-- A comparison for equality is about its left side, or about nothing if nothing can equal the
parameter. -/
theorem operands_equality (lhs : Operand) (type : Option ColumnType) (param : Json) :
    (equality lhs type param).operands ⊆ [lhs] := by
  unfold equality
  split
  · exact List.Subset.refl _
  · dsimp only
    split
    · exact List.Subset.refl _
    · exact List.nil_subset _

/-- All conditions of an operator are about the one operand that it is applied to. -/
theorem Operator.operand_eq {operator : Operator} {lhs : Operand} {type : Option ColumnType}
    {param : Json} {conditions : List Condition}
    (h : operator.conditions lhs type param = .ok conditions) :
    ∀ operand ∈ operandsOf conditions, operand = lhs := by
  have hone : ∀ condition : Condition, condition.operands ⊆ [lhs] →
      ∀ operand ∈ operandsOf [condition], operand = lhs := by
    intro condition hsub operand hoperand
    rw [operandsOf, operandsOf, List.append_nil] at hoperand
    exact List.mem_singleton.mp (hsub hoperand)
  cases operator with
  | equals =>
    cases h
    exact hone _ (operands_equality lhs type param)
  | within =>
    -- two comparisons of the one operand
    obtain ⟨⟨low, high⟩, -, h⟩ := bind_eq_ok.mp h
    cases h
    simp [operandsOf, Condition.operands]
  | contains | atLeast | atMost =>
    cases h
    exact hone _ (List.Subset.refl _)

theorem Target.operand_eq {types : ColumnTypes} {model table : String} {target : Target}
    {arguments : Arguments} {conditions : List Condition}
    (h : target.conditions types model table arguments = .ok conditions) :
    ∀ operand ∈ operandsOf conditions, operand = target.operand table := by
  obtain ⟨type, -, h⟩ := bind_eq_ok.mp h
  exact Operator.operand_eq h

mutual

/-- The operands of a renamed condition are the renamed operands. -/
theorem Condition.operands_renamed (renames : Renames) : (condition : Condition) →
    (condition.renamed renames).operands = condition.operands.map (Operand.renamed renames)
  | .compares _ _ _ => by rw [Condition.renamed, Condition.operands, Condition.operands]; rfl
  | .isNull _ => by rw [Condition.renamed, Condition.operands, Condition.operands]; rfl
  | .contains _ _ => by rw [Condition.renamed, Condition.operands, Condition.operands]; rfl
  | .impossible => by rw [Condition.renamed, Condition.operands]; rfl
  | .isAmong _ _ _ => by rw [Condition.renamed, Condition.operands, Condition.operands]; rfl
  | .anyOf members => by
    rw [Condition.renamed, Condition.operands, Condition.operands,
      operandsOf_renamedAll renames members]

theorem operandsOf_renamedAll (renames : Renames) : (conditions : List Condition) →
    operandsOf (renamedAll renames conditions) =
      (operandsOf conditions).map (Operand.renamed renames)
  | [] => rfl
  | condition :: rest => by
    rw [renamedAll, operandsOf, operandsOf, List.map_append, condition.operands_renamed renames,
      operandsOf_renamedAll renames rest]

end

/-- Ordered joins stay ordered if more qualifiers are known. -/
theorem JoinsOrdered.mono {names more : List String} {joins : List Join}
    (h : JoinsOrdered names joins) (hsub : names ⊆ more) : JoinsOrdered more joins := by
  induction joins generalizing names more with
  | nil => trivial
  | cons join rest ih =>
    obtain ⟨hleft, hright, hrest⟩ := h
    refine ⟨hleft, hsub hright, ih hrest (List.append_subset.mpr ⟨?_, ?_⟩)⟩
    · exact List.subset_append_of_subset_left _ hsub
    · exact List.subset_append_right _ _

/-- Renaming keeps joins ordered, as it goes through what they compare with too. -/
theorem JoinsOrdered.renamed (renames : Renames) {names : List String} {joins : List Join}
    (h : JoinsOrdered names joins) :
    JoinsOrdered (names.map renames.apply) (joins.map (Join.renamed renames)) := by
  induction joins generalizing names with
  | nil => trivial
  | cons join rest ih =>
    obtain ⟨hleft, hright, hrest⟩ := h
    refine ⟨congrArg renames.apply hleft, List.mem_map_of_mem hright, ?_⟩
    have hrenamed := ih hrest
    rwa [List.map_append] at hrenamed

/-! ## Scopes of filters -/

/-- What a target selects of all rows of its table is well scoped. -/
theorem Target.scopedOver_narrow {owner : Table} {types : ColumnTypes} {target : Target}
    {arguments : Arguments} {conditions : List Condition}
    (h : target.conditions types owner.model owner.name arguments = .ok conditions) :
    ((Scope.all owner).narrow conditions).ScopedOver owner := by
  refine (Scope.scopedOver_all owner).narrow fun operand hoperand => ?_
  rw [Target.operand_eq h operand hoperand]
  cases target with
  | column name => exact List.mem_cons_self ..
  | expression sql => trivial

/-- Behind a join there are this join and the renamed ones of the related scope. -/
theorem mem_joins_conjoinVia {owner : Table} {join other : Join} {related : Scope} :
    other ∈ ((Scope.all owner).conjoinVia join related).joins ↔
      other = join ∨
        ∃ nested ∈ related.joins, nested.renamed (Scope.renamesBehind join related) = other := by
  show other ∈ Scope.addJoins [] _ ↔ _
  rw [Scope.mem_addJoins, List.mem_cons, List.mem_map]
  exact ⟨fun hor => hor.resolve_left List.not_mem_nil, Or.inr⟩

/-- Behind a join the operands are the renamed ones of the related scope. -/
theorem mem_operandsOf_conjoinVia {owner : Table} {join : Join} {related : Scope}
    {operand : Operand} :
    operand ∈ operandsOf ((Scope.all owner).conjoinVia join related).conditions ↔
      ∃ old ∈ operandsOf related.conditions,
        old.renamed (Scope.renamesBehind join related) = operand := by
  show operand ∈ operandsOf (renamedAll _ related.conditions) ↔ _
  rw [operandsOf_renamedAll, List.mem_map]

/-- Behind a join an operand is about the table that the join or a renamed join gives. -/
theorem declaredIn_conjoinVia {owner : Table} {join : Join} {related : Scope} {operand : Operand}
    (h : operand.DeclaredIn related.names) :
    (operand.renamed (Scope.renamesBehind join related)).DeclaredIn
      ((Scope.all owner).conjoinVia join related).names := by
  cases operand with
  | expression sql => trivial
  | column source =>
    refine List.mem_cons_of_mem _ (List.mem_map.mpr ?_)
    rcases List.mem_cons.mp h with htable | hnested
    · refine ⟨join, mem_joins_conjoinVia.mpr (Or.inl rfl), ?_⟩
      rw [← Scope.apply_renamesBehind_table join related, ← htable]
      rfl
    · obtain ⟨nested, hnested, hqualifier⟩ := List.mem_map.mp hnested
      exact ⟨nested.renamed _, mem_joins_conjoinVia.mpr (Or.inr ⟨nested, hnested, rfl⟩),
        congrArg (Scope.renamesBehind join related).apply hqualifier⟩

/-- Going through an association to a scope that is well scoped over the related table is well
scoped over the owner's. -/
theorem scopedOver_conjoinVia {owner : Table} {association : Association} {related : Scope}
    (h : related.ScopedOver association.related) :
    ((Scope.all owner).conjoinVia (association.join owner) related).ScopedOver owner := by
  set join := association.join owner
  set renames := Scope.renamesBehind join related with hrenames
  refine ⟨⟨rfl, rfl, rfl⟩, ⟨?_, ?_⟩, Scope.nodup_addJoins List.nodup_nil _⟩
  · intro operand hoperand
    obtain ⟨old, hold, rfl⟩ := mem_operandsOf_conjoinVia.mp hoperand
    exact declaredIn_conjoinVia (h.wellScoped.operands old hold)
  · -- behind the join the related table goes by its qualifier, so its joins stay ordered
    have hbehind := h.wellScoped.joins.renamed renames
    rw [List.map_singleton, hrenames, Scope.apply_renamesBehind_table] at hbehind
    have hfirst : JoinsOrdered [owner.name] (join :: related.joins.map (Join.renamed renames)) :=
      ⟨rfl, List.mem_singleton_self _, hbehind.mono (List.subset_append_right _ _)⟩
    have hempty : JoinsOrdered [owner.name] [] := trivial
    exact hempty.addJoins hfirst (List.subset_append_left _ _)

/-! ## Lines of filters -/

section

variable {Value : Type} [DecidableEq Value] {data : Data Value}

omit [DecidableEq Value] in
/-- Following a foreign key from an owner to a scope that makes one line of each related row makes
one line of each of the owner's rows. -/
theorem oneLine_conjoinVia {owner : Table} {association : Association} {related : Scope}
    (hkind : association.kind = .belongsTo) (hkeyed : data.Keyed association.related)
    (h : related.OneLine data association.related) :
    ((Scope.all owner).conjoinVia (association.join owner) related).OneLine data owner := by
  refine (scopedOver_conjoinVia h.scopedOver).oneLine fun other hother => ?_
  rcases mem_joins_conjoinVia.mp hother with rfl | ⟨nested, hnested, rfl⟩
  · -- the foreign key is compared with the related primary key
    intro first hfirst second hsecond _ heq
    have hkey : (association.join owner).left.name = association.related.primaryKey := by
      rw [Association.join, Association.relatedKey, hkind]
    rw [hkey] at heq
    exact hkeyed.eq_of_key_eq hfirst hsecond heq
  · exact h.toOne nested hnested

namespace Filter

omit [DecidableEq Value] in
/-- A filter that reaches a column along foreign keys makes one line of each row. -/
theorem ToColumn.oneLine {owner : Table} {filter : Filter} (h : filter.ToColumn owner)
    (hkeyed : ∀ table ∈ filter.tables, data.Keyed table) {operator : Operator} {param : Json}
    {result : Scope}
    (hnarrow : filter.narrow ⟨operator, param, false⟩ (Scope.all owner) = .ok result) :
    result.OneLine data owner := by
  induction h generalizing result with
  | own types name =>
    obtain ⟨conditions, hconditions, hnarrow⟩ := bind_eq_ok.mp hnarrow
    cases hnarrow
    exact (Target.scopedOver_narrow hconditions).oneLine fun _ h => absurd h List.not_mem_nil
  | through hkind hnext ih =>
    obtain ⟨hrelated, hkeyed⟩ := List.forall_mem_cons.mp hkeyed
    obtain ⟨matched, hmatched, hnarrow⟩ := bind_eq_ok.mp hnarrow
    cases hnarrow
    exact oneLine_conjoinVia hkind hrelated (ih hkeyed hmatched)

omit [DecidableEq Value] in
/-- A direct filter makes one line of each row, as none of its joins finds two rows. -/
theorem Direct.oneLine {owner : Table} {filter : Filter} (h : filter.Direct owner)
    (hkeyed : ∀ table ∈ filter.tables, data.Keyed table) {operator : Operator} {param : Json}
    {result : Scope}
    (hnarrow : filter.narrow ⟨operator, param, false⟩ (Scope.all owner) = .ok result) :
    result.OneLine data owner := by
  rcases h with h | ⟨types, sql, rfl⟩
  · exact h.oneLine hkeyed hnarrow
  · obtain ⟨conditions, hconditions, hnarrow⟩ := bind_eq_ok.mp hnarrow
    cases hnarrow
    exact (Target.scopedOver_narrow hconditions).oneLine fun _ h => absurd h List.not_mem_nil

end Filter

end

/-- What comes through a join is conjoined as it would be with all rows. -/
theorem Scope.conjoinVia_eq_conjoin (scope : Scope) (join : Join) (related : Scope) :
    scope.conjoinVia join related = scope.conjoin (scope.cleared.conjoinVia join related) := by
  rw [conjoinVia, conjoin, conjoinVia]
  simp only [addJoins_addJoins, cleared, addJoins_nil, Option.none_or, List.nil_append]

/-- A plain filter conjoins a scope with what it selects from all rows. -/
theorem Filter.narrow_plain (filter : Filter) (operator : Operator) (param : Json)
    (scope : Scope) :
    filter.narrow ⟨operator, param, false⟩ scope =
      (filter.narrow ⟨operator, param, false⟩ scope.cleared).map scope.conjoin := by
  cases filter with
  | own types target =>
    have hconditions : target.conditions types scope.model scope.table ⟨operator, param, false⟩ =
        target.conditions types scope.cleared.model scope.cleared.table
          ⟨operator, param, false⟩ := rfl
    rw [narrow, narrow, Target.narrow, Target.narrow, hconditions]
    cases target.conditions types scope.cleared.model scope.cleared.table
      ⟨operator, param, false⟩ with
    | error rejection => rfl
    | ok conditions => exact congrArg Except.ok (scope.conjoin_narrow_cleared conditions).symm
  | through join related next =>
    rw [narrow, narrow, Arguments.plain]
    cases next.narrow ⟨operator, param, false⟩ (Scope.all related) with
    | error rejection => rfl
    | ok matched => exact congrArg Except.ok (scope.conjoinVia_eq_conjoin join matched)

end Sift
