import Sift.Proofs.BaseRestriction

/-!
# Inverted filters

An inverted filter keeps the rows of a scope that the plain filter, applied to all rows of the
table, does not select. This holds for targets in the table itself and along associations of any
depth, as each step takes the inversion out before it goes on and excludes the owners at the end.
The primary keys that are excluded are never null, so nothing is left open by the exclusion.
-/

namespace Sift

/-- A scope of the rows of a table. -/
structure Scope.Over (scope : Scope) (table : Table) : Prop where
  model_eq : scope.model = table.model
  table_eq : scope.table = table.name
  primaryKey_eq : scope.primaryKey = table.primaryKey

/-- All rows of a scope's own table are all rows of the table. -/
theorem Scope.Over.cleared_eq {scope : Scope} {table : Table} (h : scope.Over table) :
    scope.cleared = Scope.all table := by
  rw [Scope.cleared, h.model_eq, h.table_eq, h.primaryKey_eq, Scope.all]

/-- Two scopes select from one table, by the same primary key. -/
structure Scope.SameTable (scope other : Scope) : Prop where
  table_eq : scope.table = other.table
  primaryKey_eq : scope.primaryKey = other.primaryKey

theorem Scope.SameTable.refl (scope : Scope) : scope.SameTable scope := ⟨rfl, rfl⟩

theorem Scope.Extends.sameTable {scope base : Scope} (h : scope.Extends base) :
    scope.SameTable base := ⟨h.table_eq, h.primaryKey_eq⟩

/-- A scope selects rows of its table and nothing else. -/
theorem Scope.SameTable.rows_subset {Value : Type} [DecidableEq Value] {data : Data Value}
    {scope : Scope} {table : Table} (h : scope.SameTable (Scope.all table)) :
    scope.rows data ⊆ (Scope.all table).rows data := by
  intro key hkey
  obtain ⟨line, hline, -, rfl⟩ := mem_rows.mp hkey
  have hbase : line.base ∈ data.rows table.name := by
    have hmem := base_mem_rows hline
    rwa [h.table_eq] at hmem
  refine mem_rows.mpr ⟨View.start table.name line.base, ?_, ?_, by rw [h.primaryKey_eq]; rfl⟩
  · exact mem_views.mpr ⟨line.base, hbase, List.mem_singleton_self _⟩
  · exact fun condition hcondition => absurd hcondition List.not_mem_nil

/-- Conditions are added behind those of the scope. -/
theorem Scope.extends_narrow (scope : Scope) (conditions : List Condition) :
    (scope.narrow conditions).Extends scope :=
  ⟨rfl, rfl, rfl, List.prefix_append scope.conditions conditions, List.prefix_rfl⟩

/-- What comes through a join is added behind what the scope has. -/
theorem Scope.extends_conjoinVia (scope : Scope) (join : Join) (related : Scope) :
    (scope.conjoinVia join related).Extends scope :=
  ⟨rfl, rfl, rfl, List.prefix_append scope.conditions _, prefix_addJoins scope.joins _⟩

theorem Scope.extends_excluding (scope other : Scope) : (scope.excluding other).Extends scope :=
  scope.extends_narrow _

namespace Filter

/-- Inversion excludes what the plain filter selects from all rows. -/
theorem narrow_inverted (filter : Filter) (operator : Operator) (param : Json) (scope : Scope) :
    filter.narrow ⟨operator, param, true⟩ scope =
      (filter.narrow ⟨operator, param, false⟩ scope.cleared).map scope.excluding := by
  cases filter with
  | own types target =>
    have hconditions : target.conditions types scope.model scope.table ⟨operator, param, true⟩ =
        target.conditions types scope.cleared.model scope.cleared.table
          ⟨operator, param, false⟩ := rfl
    rw [narrow, narrow, Target.narrow, Target.narrow, hconditions]
    cases target.conditions types scope.cleared.model scope.cleared.table
      ⟨operator, param, false⟩ <;> rfl
  | through join related next =>
    rw [narrow, narrow, Arguments.plain, Arguments.plain]
    cases next.narrow ⟨operator, param, false⟩ (Scope.all related) <;> rfl

/-- A filter only adds to the scope that it narrows. -/
theorem extends_of_narrow {filter : Filter} {arguments : Arguments} {scope result : Scope}
    (h : filter.narrow arguments scope = .ok result) : result.Extends scope := by
  obtain ⟨operator, param, invert⟩ := arguments
  cases invert with
  | true =>
    rw [narrow_inverted, map_eq_ok] at h
    obtain ⟨matched, -, rfl⟩ := h
    exact scope.extends_excluding matched
  | false =>
    cases filter with
    | own types target =>
      obtain ⟨conditions, -, h⟩ := bind_eq_ok.mp h
      cases h
      exact scope.extends_narrow conditions
    | through join related next =>
      obtain ⟨matched, -, h⟩ := bind_eq_ok.mp h
      cases h
      exact scope.extends_conjoinVia join matched

end Filter

/-! ## The rows that are left -/

section

variable {Value : Type} [DecidableEq Value] {data : Data Value}

/-- Where no primary key is null, null is not among the rows that a scope selects; so exclusion
leaves nothing open. -/
theorem Scope.none_notMem_rows {scope : Scope}
    (hpresent : ∀ row ∈ data.rows scope.table, row scope.primaryKey ≠ none) :
    none ∉ scope.rows data := by
  intro hnone
  obtain ⟨line, hline, -, hkey⟩ := mem_rows.mp hnone
  exact hpresent line.base (base_mem_rows hline) hkey

/-- The key of a scope is the primary key of its own row, unless a join hides its table. -/
theorem Scope.value_key {scope : Scope} (hnew : scope.table ∉ scope.joins.map Join.qualifier)
    {line : View Value} (hline : line ∈ views data scope.table scope.joins) :
    scope.key.value data line = line.base scope.primaryKey := by
  rw [Scope.key, Operand.value, View.value, named_table hline hnew]

/-- A condition that depends on the primary key alone takes the rows with such a key. -/
theorem Scope.rows_narrow_key {scope : Scope} {condition : Condition} {keys : Set (Option Value)}
    (h : ∀ line ∈ views data scope.table scope.joins,
      (condition.truth data line = .yes ↔ line.base scope.primaryKey ∈ keys)) :
    (scope.narrow [condition]).rows data = scope.rows data ∩ keys := by
  ext key
  rw [Set.mem_inter_iff, mem_rows, mem_rows]
  constructor
  · rintro ⟨line, hline, hkeeps, rfl⟩
    obtain ⟨hscope, hadded⟩ := keeps_narrow.mp hkeeps
    exact ⟨⟨line, hline, hscope, rfl⟩, (h line hline).mp (hadded _ (List.mem_singleton_self _))⟩
  · rintro ⟨⟨line, hline, hkeeps, rfl⟩, hmem⟩
    refine ⟨line, hline, keeps_narrow.mpr ⟨hkeeps, ?_⟩, rfl⟩
    intro added hadded
    rw [List.mem_singleton.mp hadded]
    exact (h line hline).mpr hmem

/-- Excluding a scope takes its rows out. The primary key must not be hidden by a join. -/
theorem Scope.rows_excluding {scope other : Scope}
    (hpresent : ∀ row ∈ data.rows scope.table, row scope.primaryKey ≠ none)
    (hother : none ∉ other.rows data) (hnew : scope.table ∉ scope.joins.map Join.qualifier) :
    (scope.excluding other).rows data = scope.rows data \ other.rows data := by
  rw [Set.sdiff_eq]
  refine rows_narrow_key fun line hline => ?_
  have hvalue := value_key hnew hline
  rw [Condition.truth_isAmong_negated, rows_withoutPage, hvalue, Set.mem_compl_iff]
  · rw [hvalue]
    exact hpresent line.base (base_mem_rows hline)
  · rwa [rows_withoutPage]

/-- Requiring that one of several scopes selects a row takes the rows of their union. -/
theorem Scope.rows_narrow_anyOf {scope : Scope} {branches : List Scope}
    (hpresent : ∀ row ∈ data.rows scope.table, row scope.primaryKey ≠ none)
    (hnew : scope.table ∉ scope.joins.map Join.qualifier) :
    (scope.narrow [.anyOf (branches.map fun branch =>
      .isAmong scope.key branch.withoutPage false)]).rows data =
      scope.rows data ∩ {key | ∃ branch ∈ branches, key ∈ branch.rows data} := by
  refine rows_narrow_key fun line hline => ?_
  have hvalue := value_key hnew hline
  have hkey : scope.key.value data line ≠ none := by
    rw [hvalue]
    exact hpresent line.base (base_mem_rows hline)
  rw [Condition.truth_anyOf, Set.mem_ofPred_eq]
  constructor
  · rintro ⟨_, hmem, htruth⟩
    obtain ⟨branch, hbranch, rfl⟩ := List.mem_map.mp hmem
    rw [Condition.truth_isAmong hkey, rows_withoutPage, hvalue] at htruth
    exact ⟨branch, hbranch, htruth⟩
  · rintro ⟨branch, hbranch, hmem⟩
    refine ⟨_, List.mem_map_of_mem hbranch, ?_⟩
    rwa [Condition.truth_isAmong hkey, rows_withoutPage, hvalue]

end

namespace Surface

/-- On a surface, too, inversion excludes what the plain filter selects from all rows. -/
theorem narrowBy_inverted (surface : Surface) (name : String) (operator : Operator) (param : Json)
    (scope : Scope) :
    surface.narrowBy name ⟨operator, param, true⟩ scope =
      (surface.narrowBy name ⟨operator, param, false⟩ scope.cleared).map scope.excluding := by
  unfold narrowBy
  cases surface.filter? name with
  | none => rfl
  | some filter => exact filter.narrow_inverted operator param scope

/-- A filter of a surface only adds to the scope. -/
theorem extends_of_narrowBy {surface : Surface} {name : String} {arguments : Arguments}
    {scope result : Scope} (h : surface.narrowBy name arguments scope = .ok result) :
    result.Extends scope := by
  unfold narrowBy at h
  cases hfilter : surface.filter? name with
  | none =>
    rw [hfilter] at h
    cases h
  | some filter =>
    rw [hfilter] at h
    exact Filter.extends_of_narrow h

/-- A filter is found under its attribute, and succeeds by itself. -/
theorem narrowByAttribute_eq_ok {surface : Surface} {attr : String} {arguments : Arguments}
    {scope result : Scope} :
    surface.narrowByAttribute attr arguments scope = .ok result ↔
      ∃ filter, surface.filters.lookup attr = some filter ∧
        filter.narrow arguments scope = .ok result := by
  rw [narrowByAttribute, narrowBy, filter?_filterName]
  cases surface.filters.lookup attr with
  | none => simp
  | some filter => simp

/-- An inverted filter is rejected as the plain one is on all rows, and else selects from the scope
the rows that the plain one does not select from all rows. -/
theorem rows_narrowBy_inverted (surface : Surface) (name : String) (operator : Operator)
    (param : Json) {base : Scope} (hbase : base.Over surface.table)
    (hnew : base.table ∉ base.joins.map Join.qualifier) :
    (∀ rejection,
      surface.narrowBy name ⟨operator, param, true⟩ base = .error rejection ↔
        surface.narrowBy name ⟨operator, param, false⟩ base.cleared = .error rejection) ∧
    ∀ plain, surface.narrowBy name ⟨operator, param, false⟩ base.cleared = .ok plain →
      ∃ inverted, surface.narrowBy name ⟨operator, param, true⟩ base = .ok inverted ∧
        ∀ {Value : Type} [DecidableEq Value] (data : Data Value), data.Keyed surface.table →
          inverted.rows data = base.rows data \ plain.rows data := by
  rw [narrowBy_inverted]
  refine ⟨fun rejection => map_eq_error, ?_⟩
  intro plain hplain
  refine ⟨base.excluding plain, map_eq_ok.mpr ⟨plain, hplain, rfl⟩, ?_⟩
  intro Value _ data hkeyed
  have hpresent : ∀ row ∈ data.rows base.table, row base.primaryKey ≠ none := by
    rw [hbase.table_eq, hbase.primaryKey_eq]
    exact hkeyed.present
  have hextends := extends_of_narrowBy hplain
  refine Scope.rows_excluding hpresent (Scope.none_notMem_rows ?_) hnew
  rw [hextends.table_eq, hextends.primaryKey_eq]
  exact hpresent

end Surface

end Sift
