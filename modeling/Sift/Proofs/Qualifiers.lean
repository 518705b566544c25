import Sift.Proofs.Contributions
import Sift.Proofs.Unions
import Sift.Proofs.Ways

/-!
# Qualifiers of combined rules

Rules that must all hold join the tables on the ways of their filters, and rules that are inverted
put what their filters select into a scope inside. A table goes by the names of the associations on
the way to it with underscores between, and such names do not tell the way: an association
`home_city` and an association `city` behind an association `home` both give `home_city`. Then a
scope joins two tables under one qualifier.

So the qualifiers are different exactly if no two ways that the plain rules go are spelled alike and
the filters that the rules call are clear.
-/

namespace Sift

namespace Surface

variable {surface : Surface}

/-- The filter that a rule calls, if it calls one. -/
def calledBy (surface : Surface) : Rule → List Filter
  | .leaf attr _ => (surface.filters.lookup attr).toList
  | _ => []

/-- The ways by which a rule joins tables to the rows: those of its filter, unless it is inverted. -/
def waysOf (surface : Surface) : Rule → List Way
  | .leaf attr arguments =>
    if arguments.invert then [] else (surface.filters.lookup attr).toList.flatMap Filter.ways
  | _ => []

/-- The filters that rules call are clear, and ways by which the rules join tables to the rows are
not spelled alike. -/
structure SpelledApart (surface : Surface) (rules : List Rule) : Prop where
  clear : ∀ rule ∈ rules, ∀ filter ∈ surface.calledBy rule, filter.Clear surface.table
  way_eq : ∀ first ∈ rules, ∀ second ∈ rules, ∀ way ∈ surface.waysOf first,
    ∀ other ∈ surface.waysOf second, way.qualifier = other.qualifier → way = other

instance (surface : Surface) (rules : List Rule) : Decidable (surface.SpelledApart rules) :=
  decidable_of_iff
    ((∀ rule ∈ rules, ∀ filter ∈ surface.calledBy rule, filter.Clear surface.table) ∧
      ∀ first ∈ rules, ∀ second ∈ rules, ∀ way ∈ surface.waysOf first,
        ∀ other ∈ surface.waysOf second, way.qualifier = other.qualifier → way = other)
    ⟨fun h => ⟨h.1, h.2⟩, fun h => ⟨h.clear, h.way_eq⟩⟩

/-! ## One rule -/

/-- What a leaf leaves of all rows: what its filter selects or, if the leaf is inverted, all but
that. -/
structure SelectedBy (surface : Surface) (rule : Rule) (filter : Filter) (matched alone : Scope) :
    Prop where
  follows : filter.Follows surface.table
  called : surface.calledBy rule = [filter]
  selected : ∃ operator param,
    filter.narrow ⟨operator, param, false⟩ surface.all = .ok matched
  alone_eq : surface.waysOf rule = filter.ways ∧ alone = matched ∨
    surface.waysOf rule = [] ∧ alone = surface.all.excluding matched

/-- What a leaf selects comes from its filter: the plain result, or all rows with that result
excluded. -/
theorem FiltersFollow.exists_selectedBy (hfollow : surface.FiltersFollow) {rule : Rule}
    (hleaf : rule.IsLeaf) {alone : Scope}
    (h : surface.narrowByRule rule surface.all = .ok alone) :
    ∃ filter matched, surface.SelectedBy rule filter matched alone := by
  obtain ⟨attr, ⟨operator, param, invert⟩, rfl⟩ := hleaf
  obtain ⟨filter, hlookup, hnarrow⟩ := narrowByAttribute_eq_ok.mp h
  have hfilter : filter.Follows surface.table :=
    hfollow (attr, filter) (Keyed.mem_of_lookup hlookup)
  have hcalled : surface.calledBy (.leaf attr ⟨operator, param, invert⟩) = [filter] := by
    rw [calledBy, hlookup]
    rfl
  -- the joins of the result are those of the filter, or there are none
  cases invert with
  | false =>
    refine ⟨filter, alone, hfilter, hcalled, ⟨operator, param, hnarrow⟩, Or.inl ⟨?_, rfl⟩⟩
    simp [waysOf, hlookup]
  | true =>
    rw [Filter.narrow_inverted, map_eq_ok] at hnarrow
    obtain ⟨matched, hmatched, rfl⟩ := hnarrow
    exact ⟨filter, matched, hfilter, hcalled, ⟨operator, param, hmatched⟩, Or.inr ⟨rfl, rfl⟩⟩

namespace SelectedBy

variable {rule : Rule} {filter : Filter} {matched alone : Scope}

/-- What the filter selects gives no qualifier twice if and only if the filter is clear. -/
theorem names_nodup_iff (h : surface.SelectedBy rule filter matched alone) :
    matched.names.Nodup ↔ filter.Clear surface.table := by
  obtain ⟨operator, param, hselected⟩ := h.selected
  exact h.follows.names_nodup_iff hselected

theorem inner_matched (h : surface.SelectedBy rule filter matched alone) : matched.inner = [] := by
  obtain ⟨operator, param, hselected⟩ := h.selected
  exact Filter.inner_narrow_plain hselected

theorem nodup (h : surface.SelectedBy rule filter matched alone) : alone.joins.Nodup := by
  rcases h.alone_eq with ⟨-, rfl⟩ | ⟨-, rfl⟩
  · obtain ⟨operator, param, hselected⟩ := h.selected
    exact (h.follows.scopedOver hselected).nodup
  · exact List.nodup_nil

/-- What a leaf selects is of the surface's own table. -/
theorem table_eq (h : surface.SelectedBy rule filter matched alone) :
    alone.table = surface.table.name := by
  rcases h.alone_eq with ⟨-, rfl⟩ | ⟨-, rfl⟩
  · obtain ⟨operator, param, hselected⟩ := h.selected
    exact (Filter.extends_of_narrow hselected).table_eq
  · rfl

/-- A rule that joins a table by some way joins the tables on all ways of its filter. -/
theorem ways_eq (h : surface.SelectedBy rule filter matched alone) {way : Way}
    (hway : way ∈ surface.waysOf rule) : surface.waysOf rule = filter.ways := by
  rcases h.alone_eq with ⟨hways, -⟩ | ⟨hways, -⟩
  · exact hways
  · rw [hways] at hway
    exact absurd hway List.not_mem_nil

/-- A plain leaf joins its tables by the ways of its filter, and an inverted one joins none. -/
theorem joins_alone (h : surface.SelectedBy rule filter matched alone)
    (hclear : filter.Clear surface.table) :
    alone.joins = (surface.waysOf rule).map (Way.join surface.table.name) := by
  rcases h.alone_eq with ⟨hways, rfl⟩ | ⟨hways, rfl⟩
  · obtain ⟨operator, param, hselected⟩ := h.selected
    rw [hways]
    exact h.follows.joins_narrow hclear hselected
  · rw [hways]
    rfl

/-- The scope that an inverted rule excludes gives no qualifier twice if the filter is clear. -/
theorem names_nodup_inner (h : surface.SelectedBy rule filter matched alone)
    (hclear : filter.Clear surface.table) : ∀ part ∈ alone.inner, part.names.Nodup := by
  rcases h.alone_eq with ⟨-, rfl⟩ | ⟨-, rfl⟩
  · rw [h.inner_matched]
    exact fun _ hpart => absurd hpart List.not_mem_nil
  · rw [Scope.inner_excluding, h.inner_matched]
    exact List.forall_mem_singleton.mpr (h.names_nodup_iff.mpr hclear)

/-- The filter is clear if no qualifier is given twice, neither in a scope of which the rule makes a
part nor inside it. -/
theorem clear (h : surface.SelectedBy rule filter matched alone) {whole : Scope}
    (hpart : alone.PartOf whole) (hinner : alone.inner ⊆ whole.inner)
    (hnodup : ∀ part ∈ whole :: whole.inner, part.names.Nodup) : filter.Clear surface.table := by
  rw [← h.names_nodup_iff]
  rcases h.alone_eq with ⟨-, rfl⟩ | ⟨-, rfl⟩
  · exact hpart.names_nodup (hnodup whole (List.mem_cons_self ..))
  · rw [Scope.inner_excluding, h.inner_matched] at hinner
    exact hnodup matched.withoutPage (List.mem_cons_of_mem _ (hinner (List.mem_singleton_self _)))

end SelectedBy

/-! ## Rules one after the other -/

/-- A scope of a surface's table that joins what several scopes join and holds inside what they hold
inside. -/
structure MadeOf (surface : Surface) (parts : List Scope) (scope : Scope) : Prop where
  table_eq : scope.table = surface.table.name
  nodup : scope.joins.Nodup
  mem_joins : ∀ join, join ∈ scope.joins ↔ ∃ part ∈ parts, join ∈ part.joins
  inner_eq : scope.inner = parts.flatMap Scope.inner

/-- What rules select is made of what each of them selects on its own. -/
theorem exists_madeOf {rules : List Rule} (hleaves : ∀ rule ∈ rules, rule.IsLeaf) {result : Scope}
    (h : surface.narrowByRules surface.all rules .exclusive = .ok result) :
    ∃ branches, surface.branches rules = .ok branches ∧ surface.MadeOf branches result := by
  have hcontribute : ∀ rule ∈ rules, surface.Contributes rule := fun rule hrule _ hscope =>
    narrowByRule_leaf (hleaves rule hrule) hscope
  rw [narrowByRules_exclusive, narrowByAll_eq_foldl hcontribute surface.over_all, map_eq_ok] at h
  obtain ⟨combined, hcombined, rfl⟩ := h
  obtain ⟨branches, hbranches, rfl⟩ := map_eq_ok.mp hcombined
  refine ⟨branches, hbranches, rfl, Scope.nodup_addJoins List.nodup_nil _, fun join => ?_, ?_⟩
  · rw [Scope.joins_conjoin, Scope.mem_addJoins, Scope.mem_joins_foldl, ← or_assoc, or_self]
    exact or_iff_right List.not_mem_nil
  · rw [Scope.inner_conjoin, Scope.inner_foldl]
    rfl

namespace MadeOf

variable {rules : List Rule} {branches : List Scope} {result : Scope}

/-- If the rules are spelled apart, no qualifier comes twice. The own table is no qualifier, as the
filters are clear; two joins under one qualifier come from one way, so they are one join. -/
theorem names_nodup (hfollow : surface.FiltersFollow) (hleaves : ∀ rule ∈ rules, rule.IsLeaf)
    (hbranches : surface.branches rules = .ok branches) (h : surface.MadeOf branches result)
    (hapart : surface.SpelledApart rules) : ∀ part ∈ result :: result.inner, part.names.Nodup := by
  -- each branch is what a rule leaves, by a clear filter
  have hselected : ∀ branch ∈ branches, ∃ rule ∈ rules, ∃ filter matched,
      surface.SelectedBy rule filter matched branch ∧ filter.Clear surface.table := by
    intro branch hbranch
    obtain ⟨rule, hrule, hnarrow⟩ := (mem_branches hbranches).mp hbranch
    obtain ⟨filter, matched, hselected⟩ :=
      hfollow.exists_selectedBy (hleaves rule hrule) hnarrow
    have hclear := hapart.clear rule hrule filter
      (by rw [hselected.called]; exact List.mem_singleton_self _)
    exact ⟨rule, hrule, filter, matched, hselected, hclear⟩
  -- so each join is made by a way of a rule
  have hway : ∀ join ∈ result.joins, ∃ rule ∈ rules, ∃ way ∈ surface.waysOf rule,
      way.qualifier ≠ surface.table.name ∧ way.join surface.table.name = join := by
    intro join hjoin
    obtain ⟨branch, hbranch, hjoin⟩ := (h.mem_joins join).mp hjoin
    obtain ⟨rule, hrule, filter, matched, hselected, hclear⟩ := hselected branch hbranch
    rw [hselected.joins_alone hclear] at hjoin
    obtain ⟨way, hway, rfl⟩ := List.mem_map.mp hjoin
    refine ⟨rule, hrule, way, hway, fun heq => hclear.notMem ?_, rfl⟩
    rw [← heq, ← hselected.ways_eq hway]
    exact List.mem_map_of_mem hway
  refine List.forall_mem_cons.mpr ⟨List.nodup_cons.mpr ⟨fun hmem => ?_, ?_⟩, ?_⟩
  · obtain ⟨join, hjoin, heq⟩ := List.mem_map.mp hmem
    obtain ⟨rule, -, way, -, hne, rfl⟩ := hway join hjoin
    exact hne (heq.trans h.table_eq)
  · refine h.nodup.map_on fun first hfirst second hsecond heq => ?_
    obtain ⟨rule, hrule, way, hmem, -, rfl⟩ := hway first hfirst
    obtain ⟨other, hother, otherWay, hotherMem, -, rfl⟩ := hway second hsecond
    rw [hapart.way_eq rule hrule other hother way hmem otherWay hotherMem heq]
  · intro part hpart
    rw [h.inner_eq] at hpart
    obtain ⟨branch, hbranch, hpart⟩ := List.mem_flatMap.mp hpart
    obtain ⟨rule, -, filter, matched, hselected, hclear⟩ := hselected branch hbranch
    exact hselected.names_nodup_inner hclear part hpart

/-- If no qualifier comes twice, the rules are spelled apart: two ways with one qualifier give one
join, and then they are the same way. -/
theorem spelledApart (hfollow : surface.FiltersFollow) (hleaves : ∀ rule ∈ rules, rule.IsLeaf)
    (hbranches : surface.branches rules = .ok branches) (h : surface.MadeOf branches result)
    (hnodup : ∀ part ∈ result :: result.inner, part.names.Nodup) : surface.SpelledApart rules := by
  -- each rule leaves a branch, and its filter is clear
  have hselected : ∀ rule ∈ rules, ∃ branch ∈ branches, ∃ filter matched,
      surface.SelectedBy rule filter matched branch ∧ filter.Clear surface.table := by
    intro rule hrule
    obtain ⟨branch, hnarrow⟩ := exists_branches_iff.mp ⟨branches, hbranches⟩ rule hrule
    have hbranch : branch ∈ branches := (mem_branches hbranches).mpr ⟨rule, hrule, hnarrow⟩
    obtain ⟨filter, matched, hselected⟩ :=
      hfollow.exists_selectedBy (hleaves rule hrule) hnarrow
    have hpart : branch.PartOf result :=
      ⟨hselected.table_eq.trans h.table_eq.symm,
        fun join hjoin => (h.mem_joins join).mpr ⟨branch, hbranch, hjoin⟩, hselected.nodup⟩
    have hinner : branch.inner ⊆ result.inner := by
      rw [h.inner_eq]
      exact fun part hpart => List.mem_flatMap.mpr ⟨branch, hbranch, hpart⟩
    exact ⟨branch, hbranch, filter, matched, hselected, hselected.clear hpart hinner hnodup⟩
  have hqualifiers : (result.joins.map Join.qualifier).Nodup :=
    (List.nodup_cons.mp (hnodup result (List.mem_cons_self ..))).2
  refine ⟨fun rule hrule filter hfilter => ?_,
    fun first hfirst second hsecond way hway other hother => ?_⟩
  · obtain ⟨branch, -, called, matched, hselected, hclear⟩ := hselected rule hrule
    rw [hselected.called] at hfilter
    rwa [List.mem_singleton.mp hfilter]
  · obtain ⟨branch, hbranch, filter, matched, hfirst, hclear⟩ := hselected first hfirst
    obtain ⟨otherBranch, hotherBranch, otherFilter, otherMatched, hsecond, hotherClear⟩ :=
      hselected second hsecond
    have hways := hfirst.ways_eq hway
    have hotherWays := hsecond.ways_eq hother
    rw [hways] at hway
    rw [hotherWays] at hother
    refine hfirst.follows.way_eq hsecond.follows hclear hotherClear ?_ hway hother
    -- the result joins the tables on the ways of both filters, under different qualifiers
    intro way hway other hother heq
    refine List.inj_on_of_nodup_map hqualifiers ?_ ?_ heq
    · refine (h.mem_joins _).mpr ⟨branch, hbranch, ?_⟩
      rw [hfirst.joins_alone hclear, hways]
      exact List.mem_map_of_mem hway
    · refine (h.mem_joins _).mpr ⟨otherBranch, hotherBranch, ?_⟩
      rw [hsecond.joins_alone hotherClear, hotherWays]
      exact List.mem_map_of_mem hother

end MadeOf

/-- Leaves that must all hold give no qualifier twice, in their scope or in a scope inside it, if
and only if they are spelled apart. -/
theorem names_nodup_iff_spelledApart {limits : Limits} {declarations : List Declaration}
    {model : String}
    (hsurface : ((Catalog.empty limits).registerAll declarations).get? model = some surface)
    {rules : List Rule} (hleaves : ∀ rule ∈ rules, rule.IsLeaf) {result : Scope}
    (h : surface.narrowByRules surface.all rules .exclusive = .ok result) :
    (∀ part ∈ result :: result.inner, part.names.Nodup) ↔ surface.SpelledApart rules := by
  have hfollow : surface.FiltersFollow := filtersFollow_of_registerAll hsurface
  obtain ⟨branches, hbranches, hmade⟩ := exists_madeOf hleaves h
  exact ⟨hmade.spelledApart hfollow hleaves hbranches,
    hmade.names_nodup hfollow hleaves hbranches⟩

/-! ### Tenants, their homes and their cities -/

/-- Cities, which are read as two models, homes in a city, and tenants, who live in a home and come
from a city. -/
def tenantDeclarations : List Declaration :=
  [.basic (.declare "City" "cities" "id" [("size", .integer)]) ["size"] [],
    .basic (.declare "Capital" "cities" "id" [("age", .integer)]) ["age"] [],
    .basic (.declare "Home" "homes" "id" [("city_id", .integer)]) []
      [⟨.belongsTo, "city", "city_id", "Capital"⟩],
    .basic (.declare "Tenant" "tenants" "id" [("home_id", .integer), ("city_id", .integer)]) []
      [⟨.belongsTo, "home", "home_id", "Home"⟩, ⟨.belongsTo, "home_city", "city_id", "City"⟩]]

def tenants : Surface :=
  (((Catalog.empty Limits.default).registerAll tenantDeclarations).get? "Tenant").get rfl

/-- Requires that an attribute equals a number, or that it does not. -/
def numberRule (attr : String) (number : Int) (invert : Bool) : Rule :=
  .leaf attr ⟨.equals, .number (.integer number), invert⟩

/-- Rules about the city of the home, the home itself, and a city that the tenant must not come
from. -/
def apartRules : List Rule :=
  [numberRule "home_city_age" 7 false, numberRule "home" 1 false, numberRule "home_city_size" 5 true]

/-- Rules about the city of the home and the city that the tenant comes from. -/
def alikeRules : List Rule :=
  [numberRule "home_city_age" 7 false, numberRule "home_city_size" 5 false]

/-- Two rules share the way to the home, and the city that the tenant comes from is looked for in a
scope inside. -/
theorem names_nodup_iff_spelledApart_inverted : ∃ result,
    ((Catalog.empty Limits.default).registerAll tenantDeclarations).get? "Tenant" =
      some tenants ∧
    (∀ rule ∈ apartRules, rule.IsLeaf) ∧
    tenants.narrowByRules tenants.all apartRules .exclusive = .ok result ∧
    result.names = ["tenants", "home", "home_city"] ∧
    result.inner.map Scope.names = [["tenants", "home_city"]] ∧
    tenants.SpelledApart apartRules ∧ ∀ part ∈ result :: result.inner, part.names.Nodup := by
  have htenants : ((Catalog.empty Limits.default).registerAll tenantDeclarations).get? "Tenant" =
      some tenants := (Option.some_get _).symm
  have hleaves : ∀ rule ∈ apartRules, rule.IsLeaf :=
    List.forall_mem_cons.mpr ⟨⟨_, _, rfl⟩, List.forall_mem_cons.mpr ⟨⟨_, _, rfl⟩,
      List.forall_mem_singleton.mpr ⟨_, _, rfl⟩⟩⟩
  have h : tenants.narrowByRules tenants.all apartRules .exclusive = .ok _ := rfl
  have hapart : tenants.SpelledApart apartRules := by decide
  exact ⟨_, htenants, hleaves, h, rfl, rfl, hapart,
    (names_nodup_iff_spelledApart htenants hleaves h).mpr hapart⟩

/-- The city of the home and the city that the tenant comes from both go by `home_city`. -/
theorem names_not_nodup_home_city : ∃ result,
    ((Catalog.empty Limits.default).registerAll tenantDeclarations).get? "Tenant" =
      some tenants ∧
    (∀ rule ∈ alikeRules, rule.IsLeaf) ∧
    tenants.narrowByRules tenants.all alikeRules .exclusive = .ok result ∧
    result.names = ["tenants", "home", "home_city", "home_city"] ∧
    ¬ ∀ part ∈ result :: result.inner, part.names.Nodup := by
  have h : tenants.narrowByRules tenants.all alikeRules .exclusive = .ok _ := rfl
  refine ⟨_, (Option.some_get _).symm, List.forall_mem_cons.mpr ⟨⟨_, _, rfl⟩,
    List.forall_mem_singleton.mpr ⟨_, _, rfl⟩⟩, h, rfl, fun hnodup => ?_⟩
  exact absurd (hnodup _ (List.mem_cons_self ..)) (by decide)

end Surface

end Sift
