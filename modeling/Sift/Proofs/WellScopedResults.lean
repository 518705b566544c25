import Sift.Proofs.KeptProperties

/-!
# Results of filtering are well scoped

In a well-scoped query each join compares a column of the table it joins with a column of a table
that is there already, and every condition is about a table that is there at all. Filters give such
queries, however many associations they pass. Conjoining keeps them so, although it leaves out joins
that are there already: what is left out is there under the same qualifier, and further in front
than anything that needs it.
-/

namespace Sift

/-- What an ordered join compares is named before it. -/
theorem JoinsOrdered.of_eq_append {names : List String} {joins before after : List Join}
    {join : Join} (h : JoinsOrdered names joins) (heq : joins = before ++ join :: after) :
    join.left.qualifier = join.qualifier ∧
      join.right.qualifier ∈ names ++ before.map Join.qualifier := by
  rw [heq] at h
  obtain ⟨-, hleft, hright, -⟩ := joinsOrdered_append.mp h
  exact ⟨hleft, hright⟩

theorem Scope.ScopedOver.withoutPage {table : Table} {scope : Scope} (h : scope.ScopedOver table) :
    scope.withoutPage.ScopedOver table :=
  ⟨⟨h.overTable.model_eq, h.overTable.table_eq, h.overTable.primaryKey_eq⟩,
    ⟨h.wellScoped.operands, h.wellScoped.joins⟩, h.nodup⟩

namespace Surface

variable {surface : Surface}

/-- Being well scoped over the table of a surface is kept by rules. -/
theorem FiltersFollow.keeps_scopedOver (hfollow : surface.FiltersFollow) :
    surface.Keeps fun scope => scope.ScopedOver surface.table where
  overTable _ h := h.overTable
  all := Scope.scopedOver_all surface.table
  withoutPage _ h := h.withoutPage
  conjoin _ _ h hother := h.conjoin hother
  narrow scope _ h hkey := by
    refine h.narrow fun operand hoperand => ?_
    rw [hkey operand hoperand]
    exact List.mem_cons_self ..
  selected entry hentry _ _ _ hmatched := (hfollow entry hentry).scopedOver hmatched

theorem throughout_scopedOver {limits : Limits} {declarations : List Declaration} {model : String}
    (hnone : ∀ declaration ∈ declarations, declaration.namedScopes = [])
    (hsurface : ((Catalog.empty limits).registerAll declarations).get? model = some surface)
    {rules : List Rule} {conjunction : Conjunction} {result : Scope}
    (h : surface.narrowByRules surface.all rules conjunction = .ok result) :
    result.Throughout fun scope => scope.ScopedOver surface.table := by
  have hkeeps := (filtersFollow_of_registerAll hsurface).keeps_scopedOver
  exact hkeeps.throughout_narrowByRules (lacksScopes_of_registerAll hnone hsurface)
    hkeeps.throughout_all h

/-- In what rules leave of all rows, and in every scope inside it, no join is there twice, each join
compares a column of its own table with one of the scope's table or of a table that is joined before
it, and every column in a condition belongs to the scope's table or to a joined one. -/
theorem wellScoped_narrowByRules {limits : Limits} {declarations : List Declaration}
    {model : String} (hnone : ∀ declaration ∈ declarations, declaration.namedScopes = [])
    (hsurface : ((Catalog.empty limits).registerAll declarations).get? model = some surface)
    {rules : List Rule} {conjunction : Conjunction} {result : Scope}
    (h : surface.narrowByRules surface.all rules conjunction = .ok result) :
    ∀ part ∈ result :: result.inner,
      part.joins.Nodup ∧
      (∀ before join after, part.joins = before ++ join :: after →
        join.left.qualifier = join.qualifier ∧
          join.right.qualifier ∈ part.table :: before.map Join.qualifier) ∧
      ∀ source, .column source ∈ operandsOf part.conditions →
        source.qualifier ∈ part.table :: part.joins.map Join.qualifier := by
  intro part hpart
  have hscoped := throughout_scopedOver hnone hsurface h part hpart
  refine ⟨hscoped.nodup, fun before join after heq => ?_, fun source hsource => ?_⟩
  · exact hscoped.wellScoped.joins.of_eq_append heq
  · exact hscoped.wellScoped.operands (.column source) hsource

/-! ### Visits to shops -/

/-- Cities, offers with a computed total, shops in a city and with offers, and visits to shops. -/
def visitDeclarations : List Declaration :=
  [.basic (.declare "City" "cities" "id" [("size", .integer)]) ["size"] [],
    { Declaration.basic
        (.declare "Offer" "offers" "id" [("shop_id", .integer), ("price", .integer)]) ["price"] []
      with virtualColumns := [("total", "price * amount")] },
    .basic (.declare "Shop" "shops" "id" [("city_id", .integer)]) []
      [⟨.belongsTo, "city", "city_id", "City"⟩, ⟨.hasMany, "offers", "shop_id", "Offer"⟩],
    .basic (.declare "Visit" "visits" "id" [("shop_id", .integer)]) []
      [⟨.belongsTo, "shop", "shop_id", "Shop"⟩]]

def visits : Surface :=
  (((Catalog.empty Limits.default).registerAll visitDeclarations).get? "Visit").get rfl

theorem namedScopes_visitDeclarations :
    ∀ declaration ∈ visitDeclarations, declaration.namedScopes = [] :=
  List.forall_mem_cons.mpr ⟨rfl, List.forall_mem_cons.mpr ⟨rfl, List.forall_mem_cons.mpr
    ⟨rfl, List.forall_mem_singleton.mpr rfl⟩⟩⟩

/-- Visits to shops in a city of five or without cheap offers, with a great total, in the first
city. -/
def visitRules : List Rule :=
  [.composite [.leaf "shop_city_size" ⟨.equals, .number (.integer 5), false⟩,
      .leaf "shop_offers_price" ⟨.atMost, .number (.integer 7), true⟩] .inclusive,
    .leaf "shop_offers_total" ⟨.atLeast, .number (.integer 3), false⟩,
    .composite [.blank, .leaf "shop_city" ⟨.equals, .number (.integer 1), false⟩] .exclusive]

/-- The city behind the shop is joined by the rule of the inner list, after the offers and the shop
that both lists need. -/
theorem wellScoped_narrowByRules_visits : ∃ result,
    (∀ declaration ∈ visitDeclarations, declaration.namedScopes = []) ∧
    ((Catalog.empty Limits.default).registerAll visitDeclarations).get? "Visit" = some visits ∧
    visits.narrowByRules visits.all visitRules .exclusive = .ok result ∧
    result.names = ["visits", "shop", "shop_offers", "shop_city"] ∧
    result.inner.map Scope.names = [["visits", "shop", "shop_city"], ["visits"],
      ["visits", "shop", "shop_offers"]] ∧
    ∀ part ∈ result :: result.inner,
      part.joins.Nodup ∧
      (∀ before join after, part.joins = before ++ join :: after →
        join.left.qualifier = join.qualifier ∧
          join.right.qualifier ∈ part.table :: before.map Join.qualifier) ∧
      ∀ source, .column source ∈ operandsOf part.conditions →
        source.qualifier ∈ part.table :: part.joins.map Join.qualifier := by
  have hvisits : ((Catalog.empty Limits.default).registerAll visitDeclarations).get? "Visit" =
      some visits := (Option.some_get _).symm
  have h : visits.narrowByRules visits.all visitRules .exclusive = .ok _ := rfl
  exact ⟨_, namedScopes_visitDeclarations, hvisits, h, rfl, rfl,
    wellScoped_narrowByRules namedScopes_visitDeclarations hvisits h⟩

end Surface

end Sift
