import Sift.Catalog
import Sift.Proofs.DirectFilters
import Sift.Proofs.Unambiguous

/-!
# The meaning of rules

Every rule stands for a set of rows: a blank rule for all rows, a plain leaf for those that its
filter selects of all rows, an inverted leaf for the others, and a composite for the intersection or
the union of what its rules stand for. Filtering a base by rules selects the base's rows that are in
this set.

This is for rules whose plain leaves make one line of each row; inverted leaves may be any, as what
they exclude is selected in a scope of its own. Exclusive rules are conjoined and so share the
tables that they join. Two ways to different tables can get the same qualifier, as `home_town_city`
is both the city of the town under `home_town` and the town's city under `home`; then the conditions
of one way speak of the other way's rows, and the statement is false. So it is about unambiguous
results.
-/

namespace Sift

namespace Surface

section

variable {Value : Type} [DecidableEq Value]

/-- The rows that a rule selects of all rows. -/
def selected (surface : Surface) (data : Data Value) (rule : Rule) : Set (Option Value) :=
  {key | ∃ alone, surface.narrowByRule rule surface.all = .ok alone ∧ key ∈ alone.rows data}

mutual

/-- The rows that a rule stands for. -/
def meaningOf (surface : Surface) (data : Data Value) : Rule → Set (Option Value)
  | .blank => surface.all.rows data
  | .scope name param => surface.selected data (.scope name param)
  | .leaf attr ⟨operator, param, false⟩ =>
    surface.selected data (.leaf attr ⟨operator, param, false⟩)
  | .leaf attr ⟨operator, param, true⟩ =>
    surface.all.rows data \ surface.selected data (.leaf attr ⟨operator, param, false⟩)
  | .composite rules .exclusive => surface.intersection data rules
  | .composite [] .inclusive => surface.all.rows data
  | .composite (first :: rest) .inclusive =>
    surface.meaningOf data first ∪ surface.unionOf data rest

/-- The rows that all of several rules stand for. -/
def intersection (surface : Surface) (data : Data Value) : List Rule → Set (Option Value)
  | [] => surface.all.rows data
  | rule :: rest => surface.meaningOf data rule ∩ surface.intersection data rest

/-- The rows that at least one of several rules stands for. -/
def unionOf (surface : Surface) (data : Data Value) : List Rule → Set (Option Value)
  | [] => ∅
  | rule :: rest => surface.meaningOf data rule ∪ surface.unionOf data rest

end

/-- The rows that a list of rules stands for; an empty list stands for all rows. -/
def meaning (surface : Surface) (data : Data Value) (rules : List Rule) :
    Conjunction → Set (Option Value)
  | .exclusive => surface.intersection data rules
  | .inclusive => if rules.isEmpty then surface.all.rows data else surface.unionOf data rules

mutual

/-- Whether the plain leaves of a rule, which calls no named scope, make one line of each row. -/
def Admits (surface : Surface) : Rule → Prop
  | .blank => True
  | .scope _ _ => False
  | .leaf attr arguments => arguments.invert = false →
      ∀ filter, surface.filters.lookup attr = some filter → filter.Direct surface.table
  | .composite rules _ => surface.AdmitsAll rules

def AdmitsAll (surface : Surface) : List Rule → Prop
  | [] => True
  | rule :: rest => surface.Admits rule ∧ surface.AdmitsAll rest

end

/-- A scope that filtering all rows by admitted rules, once or more often, can give. -/
inductive Filtered (surface : Surface) : Scope → Prop
  | all : Filtered surface surface.all
  | narrowed {base result : Scope} {rules : List Rule} {conjunction : Conjunction}
      (hbase : Filtered surface base) (hrules : surface.AdmitsAll rules)
      (h : surface.narrowByRules base rules conjunction = .ok result) : Filtered surface result

/-- The tables that a surface's filters read have primary keys. -/
structure KeyedIn (surface : Surface) (data : Data Value) : Prop where
  own : data.Keyed surface.table
  related : ∀ entry ∈ surface.filters, ∀ table ∈ entry.2.tables, data.Keyed table

/-! ## What narrowing does to the rows -/

/-- The result of narrowing a scope to the rows in a set. -/
structure Narrowed (surface : Surface) (data : Data Value) (scope result : Scope)
    (keys : Set (Option Value)) : Prop where
  oneLine : result.OneLine data surface.table
  extends_scope : result.Extends scope
  rows_eq : result.isUnambiguous = true → result.rows data = scope.rows data ∩ keys

variable {surface : Surface} {data : Data Value} {scope result : Scope}

/-- A scope of a surface selects rows of its table and nothing else. -/
theorem rows_subset_all (h : scope.OneLine data surface.table)
    (hunambiguous : scope.isUnambiguous = true) : scope.rows data ⊆ surface.all.rows data := by
  have hextends : scope.Extends surface.all :=
    ⟨h.overTable.model_eq, h.overTable.table_eq, h.overTable.primaryKey_eq, List.nil_prefix,
      List.nil_prefix⟩
  have hall : surface.all.OneLine data surface.table := Scope.oneLine_all surface.table
  exact hextends.rows_subset hall.wellScoped.operands (Scope.isUnambiguous_iff.mp hunambiguous).1

/-- Doing nothing takes all rows. -/
theorem Narrowed.unchanged (h : scope.OneLine data surface.table) :
    surface.Narrowed data scope scope (surface.all.rows data) where
  oneLine := h
  extends_scope := Scope.Extends.refl scope
  rows_eq hunambiguous := (Set.inter_eq_left.mpr (rows_subset_all h hunambiguous)).symm

/-- One narrowing after another takes what both take. Whether the scope in between is ambiguous need
not be known: it is a part of the last one. -/
theorem Narrowed.trans {between : Scope} {first second : Set (Option Value)}
    (hfirst : surface.Narrowed data scope between first)
    (hsecond : surface.Narrowed data between result second) :
    surface.Narrowed data scope result (first ∩ second) where
  oneLine := hsecond.oneLine
  extends_scope := hsecond.extends_scope.trans hfirst.extends_scope
  rows_eq hunambiguous := by
    have hbetween := hsecond.extends_scope.isUnambiguous hfirst.oneLine.nodup hunambiguous
    rw [hsecond.rows_eq hunambiguous, hfirst.rows_eq hbetween, Set.inter_assoc]

/-- Conjoining with what is left of all rows leaves the same of the scope. -/
theorem Narrowed.conjoin (hkeyed : surface.KeyedIn data) (h : scope.OneLine data surface.table)
    {combined : Scope} {keys : Set (Option Value)}
    (hcombined : surface.Narrowed data surface.all combined keys) :
    surface.Narrowed data scope (scope.conjoin combined) keys where
  oneLine := h.conjoin hcombined.oneLine
  extends_scope := Scope.extends_conjoin scope combined
  rows_eq hunambiguous := by
    have htable : combined.table = scope.table := by
      rw [hcombined.oneLine.overTable.table_eq, h.overTable.table_eq]
    have hother := Scope.isUnambiguous_of_conjoin htable hcombined.oneLine.nodup hunambiguous
    have hscope := (Scope.extends_conjoin scope combined).isUnambiguous h.nodup hunambiguous
    rw [Scope.rows_conjoin h hcombined.oneLine hkeyed.own
      (Scope.isUnambiguous_iff.mp hunambiguous).1, hcombined.rows_eq hother, ← Set.inter_assoc,
      Set.inter_eq_left.mpr (rows_subset_all h hscope)]

/-- In an unambiguous scope no join hides the scope's own table. -/
theorem table_notMem_qualifiers (hunambiguous : scope.isUnambiguous = true) :
    scope.table ∉ scope.joins.map Join.qualifier :=
  (List.nodup_cons.mp (Scope.isUnambiguous_iff.mp hunambiguous).1).1

omit [DecidableEq Value] in
theorem key_present (hkeyed : surface.KeyedIn data) (h : scope.Over surface.table) :
    ∀ row ∈ data.rows scope.table, row scope.primaryKey ≠ none := by
  rw [h.table_eq, h.primaryKey_eq]
  exact hkeyed.own.present

/-- Excluding a scope takes the other rows of the table. -/
theorem Narrowed.excluding (hkeyed : surface.KeyedIn data)
    (h : scope.OneLine data surface.table) {plain : Scope} (hplain : plain.Over surface.table) :
    surface.Narrowed data scope (scope.excluding plain)
      (surface.all.rows data \ plain.rows data) where
  oneLine := by
    refine h.narrow fun operand hoperand => ?_
    rw [List.mem_singleton.mp hoperand]
    exact List.mem_cons_self ..
  extends_scope := scope.extends_excluding plain
  rows_eq hunambiguous := by
    have hscope := (scope.extends_excluding plain).isUnambiguous h.nodup hunambiguous
    have hnone := Scope.none_notMem_rows (key_present hkeyed hplain)
    rw [Scope.rows_excluding (key_present hkeyed h.overTable) hnone
      (table_notMem_qualifiers hscope), Set.sdiff_eq, Set.sdiff_eq, ← Set.inter_assoc,
      Set.inter_eq_left.mpr (rows_subset_all h hscope)]

/-- A union takes the rows of its branches, if these are known for unambiguous branches. -/
theorem Narrowed.union (hkeyed : surface.KeyedIn data) {branches : List Scope}
    {keys : Set (Option Value)}
    (hkeys : (∀ branch ∈ branches, branch.isUnambiguous = true) →
      {key | ∃ branch ∈ branches, key ∈ branch.rows data} = surface.all.rows data ∩ keys) :
    surface.Narrowed data surface.all (surface.union branches) keys where
  oneLine := by
    refine (Scope.oneLine_all surface.table).narrow fun operand hoperand => ?_
    rw [operandsOf, operandsOf, List.append_nil, Condition.operands] at hoperand
    obtain ⟨condition, hcondition, hoperand⟩ := mem_operandsOf.mp hoperand
    obtain ⟨branch, -, rfl⟩ := List.mem_map.mp hcondition
    rw [List.mem_singleton.mp hoperand]
    exact List.mem_cons_self ..
  extends_scope := surface.all.extends_narrow _
  rows_eq hunambiguous := by
    have hall : surface.all.Over surface.table := ⟨rfl, rfl, rfl⟩
    rw [Surface.union, Scope.rows_narrow_anyOf (key_present hkeyed hall) List.not_mem_nil,
      hkeys (Scope.isUnambiguous_of_union hunambiguous), ← Set.inter_assoc, Set.inter_self]

/-! ## Rules -/

omit [DecidableEq Value] in
/-- The tables that a filter passes have primary keys. -/
theorem KeyedIn.of_lookup (h : surface.KeyedIn data) {attr : String} {filter : Filter}
    (hfilter : surface.filters.lookup attr = some filter) :
    ∀ table ∈ filter.tables, data.Keyed table :=
  h.related (attr, filter) (Keyed.mem_of_lookup hfilter)

/-- What a rule selects is what it selects of all rows. -/
theorem selected_eq {rule : Rule} {alone : Scope}
    (h : surface.narrowByRule rule surface.all = .ok alone) :
    surface.selected data rule = alone.rows data := by
  ext key
  constructor
  · rintro ⟨other, hother, hmem⟩
    rw [h] at hother
    cases hother
    exact hmem
  · exact fun hmem => ⟨alone, h, hmem⟩

/-- A leaf narrows every scope to what it means. A plain one is direct, so it shares no join that
finds several rows; an inverted one excludes. -/
theorem narrowed_leaf (hkeyed : surface.KeyedIn data) {attr : String} {arguments : Arguments}
    (hrule : surface.Admits (.leaf attr arguments)) (hscope : scope.OneLine data surface.table)
    (h : surface.narrowByRule (.leaf attr arguments) scope = .ok result) :
    surface.Narrowed data scope result (surface.meaningOf data (.leaf attr arguments)) := by
  obtain ⟨operator, param, invert⟩ := arguments
  obtain ⟨filter, hfilter, h⟩ := narrowByAttribute_eq_ok.mp h
  have hcleared : scope.cleared = surface.all := hscope.overTable.cleared_eq
  have hselected : ∀ {alone : Scope}, filter.narrow ⟨operator, param, false⟩ surface.all =
      .ok alone → surface.selected data (.leaf attr ⟨operator, param, false⟩) = alone.rows data :=
    fun halone => selected_eq (narrowByAttribute_eq_ok.mpr ⟨filter, hfilter, halone⟩)
  cases invert with
  | true =>
    -- what the plain filter selects of all rows is excluded
    rw [Filter.narrow_inverted, hcleared, map_eq_ok] at h
    obtain ⟨plain, hplain, rfl⟩ := h
    have hextends := Filter.extends_of_narrow hplain
    rw [meaningOf, hselected hplain]
    exact Narrowed.excluding hkeyed hscope
      ⟨hextends.model_eq, hextends.table_eq, hextends.primaryKey_eq⟩
  | false =>
    -- it is conjoined, and each of its joins finds at most one row
    rw [Filter.narrow_plain, hcleared, map_eq_ok] at h
    obtain ⟨alone, halone, rfl⟩ := h
    have hone := (hrule rfl filter hfilter).oneLine (hkeyed.of_lookup hfilter) halone
    rw [meaningOf, hselected halone]
    refine Narrowed.conjoin hkeyed hscope ⟨hone, Filter.extends_of_narrow halone, ?_⟩
    exact fun hunambiguous => (Set.inter_eq_right.mpr (rows_subset_all hone hunambiguous)).symm

/-- What a list of rules stands for, in either conjunction, is what its combination leaves of all
rows. -/
theorem narrowed_combine (hkeyed : surface.KeyedIn data) {rules : List Rule}
    (hall : ∀ combined, surface.narrowByAll rules surface.all = .ok combined →
      surface.Narrowed data surface.all combined (surface.intersection data rules))
    (hany : ∀ branches, surface.branches rules = .ok branches →
      (∀ branch ∈ branches, branch.isUnambiguous = true) →
      {key | ∃ branch ∈ branches, key ∈ branch.rows data} =
        surface.all.rows data ∩ surface.unionOf data rules)
    {conjunction : Conjunction} {combined : Scope}
    (h : surface.combine rules conjunction = .ok combined) :
    surface.Narrowed data surface.all combined (surface.meaning data rules conjunction) := by
  cases conjunction with
  | exclusive => exact hall combined h
  | inclusive =>
    cases rules with
    | nil =>
      cases h
      exact Narrowed.unchanged (Scope.oneLine_all surface.table)
    | cons first rest =>
      obtain ⟨branches, hbranches, h⟩ := bind_eq_ok.mp h
      cases h
      exact Narrowed.union hkeyed (hany branches hbranches)

/-- A composite means what its list means. -/
theorem meaningOf_composite (rules : List Rule) (conjunction : Conjunction) :
    surface.meaningOf data (.composite rules conjunction) =
      surface.meaning data rules conjunction := by
  cases conjunction with
  | exclusive => rfl
  | inclusive => cases rules <;> rfl

mutual

/-- Narrowing a scope by a rule leaves the rows for which the rule stands. -/
theorem narrowed_of_narrowByRule {Value : Type} [DecidableEq Value] {surface : Surface}
    {data : Data Value} (hkeyed : surface.KeyedIn data) :
    (rule : Rule) → surface.Admits rule → ∀ {scope result : Scope},
      scope.OneLine data surface.table → surface.narrowByRule rule scope = .ok result →
      surface.Narrowed data scope result (surface.meaningOf data rule)
  | .blank, _, scope, result, hscope, h => by
    cases h
    exact Surface.Narrowed.unchanged hscope
  | .scope _ _, hrule, _, _, _, _ => hrule.elim
  | .leaf _ _, hrule, _, _, hscope, h => Surface.narrowed_leaf hkeyed hrule hscope h
  | .composite rules conjunction, hrule, scope, result, hscope, h => by
    rw [Surface.narrowByRule_composite, map_eq_ok] at h
    obtain ⟨combined, hcombined, rfl⟩ := h
    rw [Surface.meaningOf_composite]
    -- the rules inside are combined from all rows, whatever the scope around them is
    refine Surface.Narrowed.conjoin hkeyed hscope (Surface.narrowed_combine hkeyed ?_ ?_ hcombined)
    · exact fun _ => narrowed_of_narrowByAll hkeyed rules hrule (Scope.oneLine_all surface.table)
    · exact fun _ => rows_of_branches hkeyed rules hrule

/-- Narrowing a scope by rules one after the other leaves the rows for which all of them stand. -/
theorem narrowed_of_narrowByAll {Value : Type} [DecidableEq Value] {surface : Surface}
    {data : Data Value} (hkeyed : surface.KeyedIn data) :
    (rules : List Rule) → surface.AdmitsAll rules → ∀ {scope result : Scope},
      scope.OneLine data surface.table → surface.narrowByAll rules scope = .ok result →
      surface.Narrowed data scope result (surface.intersection data rules)
  | [], _, scope, result, hscope, h => by
    cases h
    exact Surface.Narrowed.unchanged hscope
  | rule :: rest, hrules, scope, result, hscope, h => by
    obtain ⟨hrule, hrest⟩ := hrules
    obtain ⟨narrowed, hnarrowed, h⟩ := bind_eq_ok.mp h
    -- what the first rule leaves makes one line of each row again, so the rest can narrow it
    have hfirst := narrowed_of_narrowByRule hkeyed rule hrule hscope hnarrowed
    exact hfirst.trans (narrowed_of_narrowByAll hkeyed rest hrest hfirst.oneLine h)

/-- What rules leave of all rows, each on its own, are the rows for which one of them stands. -/
theorem rows_of_branches {Value : Type} [DecidableEq Value] {surface : Surface}
    {data : Data Value} (hkeyed : surface.KeyedIn data) :
    (rules : List Rule) → surface.AdmitsAll rules → ∀ {branches : List Scope},
      surface.branches rules = .ok branches →
      (∀ branch ∈ branches, branch.isUnambiguous = true) →
      {key | ∃ branch ∈ branches, key ∈ branch.rows data} =
        surface.all.rows data ∩ surface.unionOf data rules
  | [], _, branches, h, _ => by
    cases h
    simp [Surface.unionOf]
  | rule :: rest, hrules, branches, h, hunambiguous => by
    obtain ⟨hrule, hrest⟩ := hrules
    obtain ⟨branch, hbranch, h⟩ := bind_eq_ok.mp h
    obtain ⟨others, hothers, h⟩ := bind_eq_ok.mp h
    cases h
    obtain ⟨hbranch_unambiguous, hunambiguous⟩ := List.forall_mem_cons.mp hunambiguous
    have hfirst := narrowed_of_narrowByRule hkeyed rule hrule (Scope.oneLine_all surface.table)
      hbranch
    have hkeys := hfirst.rows_eq hbranch_unambiguous
    rw [Surface.unionOf, Set.inter_union_distrib_left, ← rows_of_branches hkeyed rest hrest hothers
      hunambiguous]
    -- a row of a branch is one of the first branch or of the others
    ext key
    have hkey : key ∈ branch.rows data ↔ _ := Set.ext_iff.mp hkeys key
    simp only [Set.mem_ofPred_eq, List.mem_cons, or_and_right, exists_or, exists_eq_left, hkey]
    rfl

end

/-- What rules combine to takes what they mean together. -/
theorem narrowed_of_combine (hkeyed : surface.KeyedIn data) {rules : List Rule}
    (hrules : surface.AdmitsAll rules) {conjunction : Conjunction} {combined : Scope}
    (h : surface.combine rules conjunction = .ok combined) :
    surface.Narrowed data surface.all combined (surface.meaning data rules conjunction) := by
  refine narrowed_combine hkeyed ?_ ?_ h
  · exact fun _ => narrowed_of_narrowByAll hkeyed rules hrules (Scope.oneLine_all surface.table)
  · exact fun _ => rows_of_branches hkeyed rules hrules

/-- A base that filters made makes one line of each row. -/
theorem Filtered.oneLine (hkeyed : surface.KeyedIn data) {base : Scope}
    (h : surface.Filtered base) : base.OneLine data surface.table := by
  induction h with
  | all => exact Scope.oneLine_all surface.table
  | narrowed _ hrules h ih =>
    rcases narrowByRules_eq_ok.mp h with ⟨-, rfl⟩ | ⟨-, combined, hcombined, rfl⟩
    · exact ih
    · exact ih.conjoin (narrowed_of_combine hkeyed hrules hcombined).oneLine

/-- Filtering a base by rules selects the base's rows for which the rules stand, unless a qualifier
is given twice. -/
theorem rows_narrowByRules {base : Scope} {rules : List Rule} {conjunction : Conjunction}
    (hkeyed : surface.KeyedIn data) (hbase : surface.Filtered base)
    (hrules : surface.AdmitsAll rules)
    (h : surface.narrowByRules base rules conjunction = .ok result)
    (hunambiguous : result.isUnambiguous = true) :
    result.rows data = base.rows data ∩ surface.meaning data rules conjunction := by
  have hone := hbase.oneLine hkeyed
  rcases narrowByRules_eq_ok.mp h with ⟨rfl, rfl⟩ | ⟨-, combined, hcombined, rfl⟩
  · have hmeaning : surface.meaning data [] conjunction = surface.all.rows data := by
      cases conjunction <;> rfl
    rw [hmeaning, Set.inter_eq_left.mpr (rows_subset_all hone hunambiguous)]
  · have hnarrowed := narrowed_of_combine hkeyed hrules hcombined
    exact (Narrowed.conjoin hkeyed hone hnarrowed).rows_eq hunambiguous

end

/-! ### Two ways to a city -/

/-- A declaration of attributes and of associations by foreign keys. -/
def residentsTable (table : Table) (attributes : List String)
    (belongsTo : List (String × String × String)) : Declaration where
  table := table
  types := none
  limits := none
  attributes := attributes
  virtualColumns := []
  namedScopes := []
  allowedScopes := []
  associations := belongsTo.map fun entry => ⟨.belongsTo, entry.1, entry.2.1, entry.2.2⟩

/-- Cities, which are read as two models, and people with a home in one and a town in another. -/
def residents : Except Rejection Catalog :=
  let declarations := [
    residentsTable (.declare "City" "cities" "id" [("size", .integer)]) ["size"] [],
    residentsTable (.declare "Capital" "cities" "id" [("age", .integer)]) ["age"] [],
    residentsTable (.declare "Home" "homes" "id" [("city_id", .integer)]) []
      [("town_city", "city_id", "City")],
    residentsTable (.declare "Town" "towns" "id" [("city_id", .integer)]) []
      [("city", "city_id", "Capital")],
    residentsTable (.declare "Person" "people" "id" [("home_id", .integer), ("town_id", .integer)])
      [] [("home", "home_id", "Home"), ("home_town", "town_id", "Town")]]
  declarations.foldlM (fun catalog declaration => Prod.fst <$> catalog.register declaration)
    (Catalog.empty Limits.default)

def people : Surface :=
  (residents.toOption.bind fun catalog => catalog.get? "Person").get rfl

/-- One person, whose home is in a city of size 5 and whose town is a capital of age 7. -/
def resident : Data Nat :=
  .ofTables [
    ("people", [[("id", 1), ("home_id", 1), ("town_id", 1)]]),
    ("homes", [[("id", 1), ("city_id", 1)]]),
    ("towns", [[("id", 1), ("city_id", 2)]]),
    ("cities", [[("id", 1), ("size", 5)], [("id", 2), ("age", 7)]])]

/-- Requires that the home's city has size 5. -/
def sizeRule : Rule := .leaf "home_town_city_size" ⟨.equals, .number (.integer 5), false⟩

/-- Requires that the town's city has age 7. -/
def ageRule : Rule := .leaf "home_town_city_age" ⟨.equals, .number (.integer 7), false⟩

theorem keyedIn_resident : people.KeyedIn resident := ⟨by decide, by decide⟩

theorem admits_sizeRule : people.Admits sizeRule := by
  intro _ filter hfilter
  cases Option.some.inj (hfilter.symm.trans rfl)
  exact Or.inl (.through rfl (.through rfl (.own _ _)))

theorem admits_ageRule : people.Admits ageRule := by
  intro _ filter hfilter
  cases Option.some.inj (hfilter.symm.trans rfl)
  exact Or.inl (.through rfl (.through rfl (.own _ _)))

/-- Inclusive rules keep the two cities apart, as each is joined in a scope of its own. -/
theorem rows_narrowByRules_inclusive : ∃ result,
    people.KeyedIn resident ∧ people.Filtered people.all ∧
    people.AdmitsAll [sizeRule, .composite [.blank, ageRule] .exclusive] ∧
    people.narrowByRules people.all [sizeRule, .composite [.blank, ageRule] .exclusive]
      .inclusive = .ok result ∧
    result.isUnambiguous = true ∧
    result.rows resident = people.all.rows resident ∩
      people.meaning resident [sizeRule, .composite [.blank, ageRule] .exclusive] .inclusive := by
  have hrules : people.AdmitsAll [sizeRule, .composite [.blank, ageRule] .exclusive] :=
    ⟨admits_sizeRule, ⟨trivial, admits_ageRule, trivial⟩, trivial⟩
  have h : people.narrowByRules people.all [sizeRule, .composite [.blank, ageRule] .exclusive]
      .inclusive = .ok _ := rfl
  exact ⟨_, keyedIn_resident, .all, hrules, h, by decide,
    rows_narrowByRules keyedIn_resident .all hrules h (by decide)⟩

/-- Exclusive rules give both cities the qualifier `home_town_city`, and the person, whose cities
are as required, is not selected. -/
theorem rows_narrowByRules_ambiguous : ∃ result,
    people.KeyedIn resident ∧ people.Filtered people.all ∧
    people.AdmitsAll [sizeRule, ageRule] ∧
    people.narrowByRules people.all [sizeRule, ageRule] .exclusive = .ok result ∧
    result.rows resident ≠ people.all.rows resident ∩
      people.meaning resident [sizeRule, ageRule] .exclusive := by
  have h : people.narrowByRules people.all [sizeRule, ageRule] .exclusive = .ok _ := rfl
  refine ⟨_, keyedIn_resident, .all, ⟨admits_sizeRule, admits_ageRule, trivial⟩, h, ?_⟩
  have hall : some 1 ∈ people.all.rows resident := by decide
  have hmeaning : some 1 ∈ people.all.rows resident ∩
      people.meaning resident [sizeRule, ageRule] .exclusive :=
    ⟨hall, ⟨_, rfl, by decide⟩, ⟨_, rfl, by decide⟩, hall⟩
  intro heq
  rw [← heq] at hmeaning
  exact absurd hmeaning (by decide)

end Surface

end Sift
