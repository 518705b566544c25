import Sift.Proofs.Ways
import Sift.Proofs.WellScopedResults

/-!
# Paths of associations

A filter of a related model can be reached over any number of associations, under the names of all
of them with underscores between. What it selects of all rows has then exactly one join for each
association on the path: the table that is reached goes by the names of the associations up to it,
and is compared with the table before it. The conditions are those that the operator puts on the
column in the last table, about the last table under its qualifier.

Each association on the path renames what the deeper ones gave, so a qualifier is renamed as often as
it is deep. That leads to the right one in the end because no table on the path has the name of a
qualifier that is given behind it.
-/

namespace Sift

/-! ## Paths -/

/-- The names of associations with underscores between. -/
def underscored (path : List Association) : String :=
  "_".intercalate (path.map Association.name)

/-- The table that a path from an owner leads to. -/
def reached (owner : Table) : List Association → Table
  | [] => owner
  | association :: rest => reached association.related rest

/-- The qualifier of the table that a path leads to, in a scope of an owner. -/
def qualifierOn (owner : Table) (path : List Association) : String :=
  if path.isEmpty then owner.name else underscored path

/-- How a scope of an owner joins a table that is reached by one more association. -/
def joinBehind (owner : Table) (passed : List Association) (association : Association) : Join :=
  let qualifier := underscored (passed ++ [association])
  match association.kind with
  | .belongsTo =>
    { table := association.related.name
      qualifier := qualifier
      left := ⟨qualifier, association.related.primaryKey⟩
      right := ⟨qualifierOn owner passed, association.foreignKey⟩ }
  | .hasMany =>
    { table := association.related.name
      qualifier := qualifier
      left := ⟨qualifier, association.foreignKey⟩
      right := ⟨qualifierOn owner passed, (reached owner passed).primaryKey⟩ }

/-- No table before the last one on a path has the name of associations that follow it. -/
def PathClear (owner : Table) (path : List Association) : Prop :=
  ∀ stop ≤ path.length, ∀ start < stop,
    (reached owner (path.take start)).name ≠ underscored ((path.take stop).drop start)

instance (owner : Table) (path : List Association) : Decidable (PathClear owner path) :=
  inferInstanceAs (Decidable (∀ stop ≤ path.length, ∀ start < stop,
    (reached owner (path.take start)).name ≠ underscored ((path.take stop).drop start)))

/-- The filter that passes on along a path to a last one. -/
def Filter.along (last : Filter) : Table → List Association → Filter
  | _, [] => last
  | owner, association :: rest =>
    .through (association.join owner) association.related (last.along association.related rest)

/-- A filter of a surface under a name is dispatched along a path of associations, each of which
leads to the next surface, to a column of the last surface. -/
inductive Surface.Dispatches : Surface → String → List Association → Surface → String → Prop
  /-- The filter of a column of the surface itself. -/
  | own {owner : Surface} {column : String}
      (hfilter : owner.filters.lookup column = some (.own owner.types (.column column))) :
    Dispatches owner column [] owner column
  /-- The filter of the related primary key. -/
  | key {owner related : Surface} {association : Association}
      (hmem : association ∈ owner.associations) (hrelated : association.related = related.table)
      (hfilter : owner.filters.lookup association.name =
        some (.through (association.join owner.table) related.table
          (.own related.types (.column related.table.primaryKey)))) :
    Dispatches owner association.name [association] related related.table.primaryKey
  /-- A filter that passes on to a filter of the related surface. -/
  | through {owner related last : Surface} {association : Association} {name column : String}
      {path : List Association} {next : Filter}
      (hmem : association ∈ owner.associations) (hrelated : association.related = related.table)
      (hfilter : owner.filters.lookup (association.nestedName name) =
        some (.through (association.join owner.table) related.table next))
      (hnext : related.filters.lookup name = some next)
      (hdispatch : Dispatches related name path last column) :
    Dispatches owner (association.nestedName name) (association :: path) last column

theorem qualifier_joinBehind (owner : Table) (passed : List Association)
    (association : Association) :
    (joinBehind owner passed association).qualifier = underscored (passed ++ [association]) := by
  unfold joinBehind
  cases association.kind <;> rfl

/-- The names of a longer path are nested as the names of filters are. -/
theorem underscored_cons (association : Association) {rest : List Association} (h : rest ≠ []) :
    underscored (association :: rest) = association.nestedName (underscored rest) := by
  have hne : rest.map Association.name ≠ [] := fun hnil => h (List.map_eq_nil_iff.mp hnil)
  rw [underscored, List.map_cons, String.intercalate_cons_of_ne_nil hne]
  rfl

theorem underscored_singleton (association : Association) :
    underscored [association] = association.name :=
  String.intercalate_singleton

namespace Surface.Dispatches

variable {owner last : Surface} {name column : String} {path : List Association}

/-- The last surface is the one of the table that the path leads to. -/
theorem reached_eq (h : owner.Dispatches name path last column) :
    reached owner.table path = last.table := by
  induction h with
  | own hfilter => rfl
  | key hmem hrelated hfilter => exact hrelated
  | through hmem hrelated hfilter hnext hdispatch ih => rw [reached, hrelated, ih]

/-- The name is made of those of the associations and, unless the filter is that of a related
primary key, of the column. -/
theorem name_eq (h : owner.Dispatches name path last column) :
    name = "_".intercalate (path.map Association.name ++ [column]) ∨
      name = underscored path ∧ column = last.table.primaryKey ∧ path ≠ [] := by
  induction h with
  | own hfilter => exact Or.inl String.intercalate_singleton.symm
  | @key owner related association hmem hrelated hfilter =>
    exact Or.inr ⟨(underscored_singleton association).symm, rfl, List.cons_ne_nil _ _⟩
  | @through owner related last association name column path next hmem hrelated hfilter hnext
      hdispatch ih =>
    rcases ih with hname | ⟨hname, hcolumn, hne⟩
    · left
      have hmore : path.map Association.name ++ [column] ≠ [] :=
        List.append_ne_nil_of_right_ne_nil _ (List.cons_ne_nil _ _)
      rw [List.map_cons, List.cons_append, String.intercalate_cons_of_ne_nil hmore, ← hname]
      rfl
    · right
      exact ⟨by rw [underscored_cons association hne, hname], hcolumn, List.cons_ne_nil _ _⟩

/-- A dispatched filter is the filter along the path, written out by the declarations on the way. -/
theorem lookup_eq (h : owner.Dispatches name path last column) :
    owner.filters.lookup name =
      some ((Filter.own last.types (.column column)).along owner.table path) := by
  induction h with
  | own hfilter => exact hfilter
  | @key owner related association hmem hrelated hfilter =>
    rw [hfilter, ← hrelated]
    rfl
  | through hmem hrelated hfilter hnext hdispatch ih =>
    cases hnext.symm.trans ih
    rw [hfilter, ← hrelated]
    rfl

end Surface.Dispatches

/-! ## Joins on a path -/

/-- The joins that the associations on a path make from the tables of their owners. -/
def hops (owner : Table) : List Association → List Join
  | [] => []
  | association :: rest => association.join owner :: hops association.related rest

theorem hops_eq_nil_iff {owner : Table} {path : List Association} :
    hops owner path = [] ↔ path = [] := by
  cases path <;> simp [hops]

/-- One more association makes one more join, from the table that the path reached. -/
theorem hops_concat (owner : Table) (path : List Association) (association : Association) :
    hops owner (path ++ [association]) =
      hops owner path ++ [association.join (reached owner path)] := by
  induction path generalizing owner with
  | nil => rfl
  | cons first rest ih => simp [hops, reached, ih]

/-- The qualifiers of the joins on a path are spelled as the path is. -/
theorem spelled_hops (owner : Table) (path : List Association) :
    spelled (hops owner path) = underscored path := by
  induction path generalizing owner with
  | nil => rfl
  | cons association rest ih =>
    by_cases hnil : rest = []
    · rw [hnil, underscored_singleton]
      rfl
    · have hne : hops association.related rest ≠ [] := fun h => hnil (hops_eq_nil_iff.mp h)
      rw [hops, spelled_cons _ hne, ih, underscored_cons association hnil]
      rfl

namespace Filter

variable {types : ColumnTypes} {target : Target}

/-- A filter along a path follows associations. -/
theorem follows_along (owner : Table) (path : List Association) :
    ((Filter.own types target).along owner path).Follows owner := by
  induction path generalizing owner with
  | nil => exact .own types target
  | cons association rest ih => exact .through (ih association.related)

/-- A filter goes one way for each association on its path. -/
theorem length_ways_along (owner : Table) (path : List Association) :
    ((Filter.own types target).along owner path).ways.length = path.length := by
  induction path generalizing owner with
  | nil => rfl
  | cons association rest ih => simp [along, ways, ih]

/-- The ways of a filter along a path go over longer and longer parts of the path. -/
theorem getElem?_ways_along (owner : Table) {path : List Association} {i : Nat}
    (h : i < path.length) :
    ((Filter.own types target).along owner path).ways[i]? =
      some ⟨hops owner (path.take i), path[i].join (reached owner (path.take i))⟩ := by
  induction path generalizing owner i with
  | nil => exact absurd h (Nat.not_lt_zero i)
  | cons association rest ih =>
    cases i with
    | zero => rfl
    | succ i =>
      have hrest : i < rest.length := Nat.lt_of_succ_lt_succ h
      rw [along, ways, List.getElem?_cons_succ, List.getElem?_map, ih association.related hrest]
      rfl

end Filter

section

variable {owner : Table} {path : List Association} {i : Nat}

theorem qualifier_way (h : i < path.length) :
    (Way.mk (hops owner (path.take i)) (path[i].join (reached owner (path.take i)))).qualifier =
      underscored (path.take (i + 1)) := by
  rw [Way.qualifier, Way.steps, ← hops_concat, spelled_hops, List.take_append_getElem h]

/-- The join of a way is the join behind the part of the path before it. -/
theorem join_way (h : i < path.length) :
    (Way.mk (hops owner (path.take i)) (path[i].join (reached owner (path.take i)))).join
      owner.name = joinBehind owner (path.take i) path[i] := by
  have horigin : (Way.mk (hops owner (path.take i))
      (path[i].join (reached owner (path.take i)))).origin owner.name =
        qualifierOn owner (path.take i) := by
    rw [Way.origin, qualifierOn, spelled_hops]
    simp only [hops_eq_nil_iff, List.isEmpty_iff]
  rw [Way.join, horigin, qualifier_way h, joinBehind, List.take_append_getElem h]
  -- the two kinds of association differ in which of the compared columns is a primary key
  cases hkind : path[i].kind <;>
    simp [Association.join, Association.relatedKey, Association.ownerKey, hkind]

/-- The rest of a clear path is clear. -/
theorem PathClear.rest {association : Association} (h : PathClear owner (association :: path)) :
    PathClear association.related path :=
  fun stop hstop start hstart => h (stop + 1) (Nat.succ_le_succ hstop) (start + 1)
    (Nat.succ_lt_succ hstart)

/-- The filter along a clear path is clear. -/
theorem PathClear.clear {types : ColumnTypes} {target : Target} (h : PathClear owner path) :
    ((Filter.own types target).along owner path).Clear owner := by
  induction path generalizing owner with
  | nil => trivial
  | cons association rest ih =>
    refine ⟨fun hmem => ?_, ih h.rest⟩
    -- each way goes over a first part of the path, whose names the owner's table does not have
    obtain ⟨way, hway, hqualifier⟩ := List.mem_map.mp hmem
    obtain ⟨i, hi, hget⟩ := List.mem_iff_getElem.mp hway
    have hlength : i < (association :: rest).length :=
      Nat.lt_of_lt_of_eq hi (Filter.length_ways_along owner (association :: rest))
    have hway_eq := (Filter.getElem?_ways_along owner hlength).symm.trans
      (List.getElem?_eq_some_iff.mpr ⟨hi, hget⟩)
    cases hway_eq
    rw [qualifier_way hlength] at hqualifier
    exact h (i + 1) hlength 0 (Nat.succ_pos i) hqualifier.symm

/-- The joins of what a filter selects along a path: one for each association, in order. -/
theorem joins_along {types : ColumnTypes} {target : Target} (h : PathClear owner path)
    {operator : Operator} {param : Json} {result : Scope}
    (hnarrow : ((Filter.own types target).along owner path).narrow ⟨operator, param, false⟩
      (Scope.all owner) = .ok result) :
    result.joins.length = path.length ∧
      ∀ (i : Nat) (hi : i < path.length),
        result.joins[i]? = some (joinBehind owner (path.take i) path[i]) := by
  rw [(Filter.follows_along owner path).joins_narrow h.clear hnarrow]
  refine ⟨by rw [List.length_map, Filter.length_ways_along], fun i hi => ?_⟩
  rw [List.getElem?_map, Filter.getElem?_ways_along owner hi, Option.map_some, join_way hi]

end

/-! ## Conditions on a path -/

/-- Comparing a renamed operand is comparing the operand and renaming. -/
theorem equality_renamed (renames : Renames) (lhs : Operand) (type : Option ColumnType)
    (param : Json) :
    (equality lhs type param).renamed renames = equality (lhs.renamed renames) type param := by
  unfold equality
  by_cases hnull : param.isNull
  · rw [if_pos hnull, if_pos hnull, Condition.renamed]
  · rw [if_neg hnull, if_neg hnull]
    dsimp only
    split <;> rw [Condition.renamed]

/-- An operator puts on an operand under a new qualifier what it puts on the old one, renamed. -/
theorem Operator.conditions_renamed {operator : Operator} {lhs : Operand}
    {type : Option ColumnType} {param : Json} {conditions : List Condition}
    (h : operator.conditions lhs type param = .ok conditions) (renames : Renames) :
    operator.conditions (lhs.renamed renames) type param = .ok (renamedAll renames conditions) := by
  cases operator with
  | equals =>
    cases h
    rw [renamedAll, renamedAll, equality_renamed]
    rfl
  | within =>
    obtain ⟨⟨low, high⟩, hbounds, h⟩ := bind_eq_ok.mp h
    cases h
    refine bind_eq_ok.mpr ⟨(low, high), hbounds, ?_⟩
    simp only [renamedAll, Condition.renamed]
  | contains | atLeast | atMost =>
    cases h
    simp only [renamedAll, Condition.renamed, conditions]

/-- A column under a new qualifier is asked the same: only the qualifier changes, since types go by
the model. -/
theorem Target.conditions_renamed {types : ColumnTypes} {model table column : String}
    {arguments : Arguments} {conditions : List Condition}
    (h : (Target.column column).conditions types model table arguments = .ok conditions)
    (renames : Renames) :
    (Target.column column).conditions types model (renames.apply table) arguments =
      .ok (renamedAll renames conditions) := by
  obtain ⟨type, htype, h⟩ := bind_eq_ok.mp h
  exact bind_eq_ok.mpr ⟨type, htype, Operator.conditions_renamed h renames⟩

/-- Behind the first join of a path, the table that is reached goes by the names of the whole
path. -/
theorem apply_renamesBehind_qualifierOn (owner : Table) {association : Association}
    {rest : List Association} (h : PathClear association.related rest) {matched : Scope}
    (htable : matched.table = association.related.name)
    (hlength : matched.joins.length = rest.length)
    (hjoins : ∀ (i : Nat) (hi : i < rest.length),
      matched.joins[i]? = some (joinBehind association.related (rest.take i) rest[i])) :
    (Scope.renamesBehind (association.join owner) matched).apply
        (qualifierOn association.related rest) = qualifierOn owner (association :: rest) := by
  have hwhole : qualifierOn owner (association :: rest) = underscored (association :: rest) := rfl
  by_cases hnil : rest = []
  · rw [hwhole, hnil, underscored_singleton, qualifierOn, List.isEmpty_nil, if_pos rfl, ← htable,
      Scope.apply_renamesBehind_table]
    rfl
  · -- the last join of the related scope gives the qualifier, which is not the related table's
    have hunderscored : qualifierOn association.related rest = underscored rest := by
      rw [qualifierOn, if_neg fun hempty => hnil (List.isEmpty_iff.mp hempty)]
    have hne : underscored rest ≠ matched.table := by
      have hclear := h rest.length (Nat.le_refl _) 0 (List.length_pos_iff.mpr hnil)
      rw [List.take_length, List.drop_zero] at hclear
      rw [htable]
      exact fun heq => hclear heq.symm
    have hmem : underscored rest ∈ matched.joins.map Join.qualifier := by
      obtain ⟨passed, final, rfl⟩ := (List.eq_nil_or_concat rest).resolve_left hnil
      have hi : passed.length < (passed.concat final).length := by simp
      have hlast := List.mem_of_getElem? (hjoins passed.length hi)
      refine List.mem_map.mpr ⟨_, hlast, ?_⟩
      rw [qualifier_joinBehind, List.take_append_getElem hi, ← List.length_concat,
        List.take_length]
    rw [hwhole, hunderscored, Scope.apply_renamesBehind_nested _ hmem hne,
      underscored_cons association hnil]
    rfl

/-- A filter along a path selects what the operator accepts in the last table, and its conditions
are about the column under the qualifier of the path. -/
theorem exists_narrow_along {types : ColumnTypes} {column : String} {owner : Table}
    {path : List Association} (h : PathClear owner path) {operator : Operator} {param : Json}
    {conditions : List Condition}
    (haccepts : (Target.column column).conditions types (reached owner path).model
      (reached owner path).name ⟨operator, param, false⟩ = .ok conditions) :
    ∃ result, ((Filter.own types (.column column)).along owner path).narrow
        ⟨operator, param, false⟩ (Scope.all owner) = .ok result ∧
      (Target.column column).conditions types (reached owner path).model (qualifierOn owner path)
        ⟨operator, param, false⟩ = .ok result.conditions := by
  induction path generalizing owner with
  | nil => exact ⟨(Scope.all owner).narrow conditions, bind_eq_ok.mpr ⟨conditions, haccepts, rfl⟩,
      haccepts⟩
  | cons association rest ih =>
    obtain ⟨matched, hmatched, hconditions⟩ := ih h.rest haccepts
    have htable : matched.table = association.related.name :=
      (Filter.extends_of_narrow hmatched).table_eq
    obtain ⟨hlength, hjoins⟩ := joins_along h.rest hmatched
    have hqualifier := apply_renamesBehind_qualifierOn owner h.rest htable hlength hjoins
    have hrenamed := Target.conditions_renamed hconditions
      (Scope.renamesBehind (association.join owner) matched)
    rw [hqualifier] at hrenamed
    exact ⟨(Scope.all owner).conjoinVia (association.join owner) matched,
      bind_eq_ok.mpr ⟨matched, hmatched, rfl⟩, hrenamed⟩

namespace Surface

variable {owner last : Surface} {name column : String} {path : List Association}

/-- A filter that is dispatched along a path of associations to a column selects, of all rows and
without inversion, with one join for each association and with the conditions of the operator about
the column under the qualifier of the path. -/
theorem narrowBy_dispatched (hdispatch : owner.Dispatches name path last column)
    (hclear : PathClear owner.table path) {operator : Operator} {param : Json}
    {conditions : List Condition}
    (haccepts : (Target.column column).conditions last.types last.model last.table.name
      ⟨operator, param, false⟩ = .ok conditions) :
    (name = "_".intercalate (path.map Association.name ++ [column]) ∨
      name = underscored path ∧ column = last.table.primaryKey ∧ path ≠ []) ∧
    ∃ result, owner.narrowBy (filterName name) ⟨operator, param, false⟩ owner.all = .ok result ∧
      result.Over owner.table ∧
      result.joins.length = path.length ∧
      (∀ (i : Nat) (hi : i < path.length),
        result.joins[i]? = some (joinBehind owner.table (path.take i) path[i])) ∧
      (Target.column column).conditions last.types last.model (qualifierOn owner.table path)
        ⟨operator, param, false⟩ = .ok result.conditions ∧
      result.conditions =
        renamedAll [(last.table.name, qualifierOn owner.table path)] conditions := by
  have hlast := hdispatch.reached_eq
  have hmodel : last.model = (reached owner.table path).model := congrArg Table.model hlast.symm
  have haccepts_reached := haccepts
  rw [hmodel, ← hlast] at haccepts_reached
  obtain ⟨result, hnarrow, hconditions⟩ := exists_narrow_along hclear haccepts_reached
  obtain ⟨hlength, hjoins⟩ := joins_along hclear hnarrow
  have hresult : owner.narrowBy (filterName name) ⟨operator, param, false⟩ owner.all =
      .ok result := by
    rw [narrowBy, filter?_filterName, hdispatch.lookup_eq]
    exact hnarrow
  rw [← hmodel] at hconditions
  have hextends := Filter.extends_of_narrow hnarrow
  refine ⟨hdispatch.name_eq, result, hresult, ⟨hextends.model_eq, hextends.table_eq,
    hextends.primaryKey_eq⟩, hlength, hjoins, hconditions, ?_⟩
  -- renaming the table is the same as asking for the conditions under the new name
  have hrenamed := Target.conditions_renamed haccepts
    [(last.table.name, qualifierOn owner.table path)]
  have happly : Renames.apply [(last.table.name, qualifierOn owner.table path)] last.table.name =
      qualifierOn owner.table path := by
    simp [Renames.apply]
  rw [happly, hconditions] at hrenamed
  exact Except.ok.inj hrenamed

/-! ### Guests of visits -/

/-- Guests, each at a visit. -/
def guestDeclarations : List Declaration :=
  visitDeclarations ++ [.basic (.declare "Guest" "guests" "id" [("visit_id", .integer)]) []
    [⟨.belongsTo, "visit", "visit_id", "Visit"⟩]]

def guestCatalog : Catalog :=
  (Catalog.empty Limits.default).registerAll guestDeclarations

def guests : Surface := (guestCatalog.get? "Guest").get rfl

def shops : Surface := (guestCatalog.get? "Shop").get rfl

def offers : Surface := (guestCatalog.get? "Offer").get rfl

/-- From a guest to the offers of the shop of the visit. -/
def toOffers : List Association :=
  [⟨.belongsTo, "visit", "visit_id", visits.table⟩, ⟨.belongsTo, "shop", "shop_id", shops.table⟩,
    ⟨.hasMany, "offers", "shop_id", offers.table⟩]

theorem dispatches_guests : guests.Dispatches "visit_shop_offers_price" toOffers offers "price" := by
  have hprice : offers.Dispatches "price" [] offers "price" := .own rfl
  have hoffers : shops.Dispatches (Association.nestedName toOffers[2] "price") [toOffers[2]] offers
      "price" :=
    .through (List.mem_cons_of_mem _ (List.mem_cons_self ..)) rfl rfl rfl hprice
  have hshop : visits.Dispatches (Association.nestedName toOffers[1] "offers_price")
      [toOffers[1], toOffers[2]] offers "price" :=
    .through (List.mem_cons_self ..) rfl rfl rfl hoffers
  have hvisit : guests.Dispatches
      (Association.nestedName toOffers[0] (Association.nestedName toOffers[1] "offers_price"))
      [toOffers[0], toOffers[1], toOffers[2]] offers "price" :=
    .through (List.mem_cons_self ..) rfl rfl rfl hshop
  exact hvisit

/-- The price goes by three names, and each table on the way by one less. -/
theorem narrowBy_dispatched_guests : ∃ result,
    guests.Dispatches "visit_shop_offers_price" toOffers offers "price" ∧
    PathClear guests.table toOffers ∧
    guests.narrowBy "by_visit_shop_offers_price" ⟨.atMost, .number (.integer 7), false⟩
      guests.all = .ok result ∧
    result.joins = [⟨"visits", "visit", ⟨"visit", "id"⟩, ⟨"guests", "visit_id"⟩⟩,
      ⟨"shops", "visit_shop", ⟨"visit_shop", "id"⟩, ⟨"visit", "shop_id"⟩⟩,
      ⟨"offers", "visit_shop_offers", ⟨"visit_shop_offers", "shop_id"⟩, ⟨"visit_shop", "id"⟩⟩] ∧
    result.joins[2]? = some (joinBehind guests.table (toOffers.take 2) toOffers[2]) ∧
    result.conditions = [.compares (.column ⟨"visit_shop_offers", "price"⟩) .atMost
      (.number (.integer 7))] := by
  have hclear : PathClear guests.table toOffers := by decide
  have haccepts : (Target.column "price").conditions offers.types offers.model offers.table.name
      ⟨.atMost, .number (.integer 7), false⟩ = .ok _ := rfl
  obtain ⟨-, result, hresult, -, -, hjoins, -, hconditions⟩ :=
    narrowBy_dispatched dispatches_guests hclear haccepts
  have hlast := hjoins 2 (by decide)
  cases hresult
  exact ⟨_, dispatches_guests, hclear, rfl, rfl, hlast, hconditions⟩

end Surface

end Sift
