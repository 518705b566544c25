import Sift.Proofs.Renaming

/-!
# Conjoining behind a join

What two scopes on a related table require can be conjoined first and joined to an owner then, or
each of them can be joined to the owner by itself. The scope is the same, down to the order of its
joins, as long as the two scopes mention no table but their own and those that they join.

The new qualifiers are looked up among the joins of both scopes in the one case and among those of
each scope in the other. But a qualifier that a scope mentions is its own, so it is found either
way, and what it becomes depends on the related table and the join alone. And a join that both
scopes have is left out under its old qualifier in the one case and under its new one in the other.
-/

namespace Sift

/-- New qualifiers that are the same for some of the old ones. -/
def Renames.AgreeOn (names : List String) (renames other : Renames) : Prop :=
  ∀ qualifier ∈ names, renames.apply qualifier = other.apply qualifier

/-- Renamings that agree on the names of a scope do the same to what is declared in it. -/
theorem Operand.DeclaredIn.renamed_eq {names : List String} {renames other : Renames}
    {operand : Operand} (h : operand.DeclaredIn names) (hagree : renames.AgreeOn names other) :
    operand.renamed renames = operand.renamed other := by
  cases operand with
  | column source =>
    rw [Operand.renamed, Operand.renamed, Column.renamed, Column.renamed, hagree _ h]
  | expression sql => rfl

namespace Scope

/-- A scope mentions no table but its own and those that it joins. -/
structure MentionsOwn (scope : Scope) : Prop where
  operands : scope.OperandsDeclared
  lefts : ∀ join ∈ scope.joins, join.left.qualifier ∈ scope.names
  rights : ∀ join ∈ scope.joins, join.right.qualifier ∈ scope.names

section

variable {scope : Scope} {renames other : Renames}

theorem MentionsOwn.renamedAll_eq (h : scope.MentionsOwn)
    (hagree : renames.AgreeOn scope.names other) :
    renamedAll renames scope.conditions = renamedAll other scope.conditions :=
  renamedAll_congr _ fun operand hoperand => (h.operands operand hoperand).renamed_eq hagree

theorem MentionsOwn.map_renamed_eq (h : scope.MentionsOwn)
    (hagree : renames.AgreeOn scope.names other) :
    scope.joins.map (Join.renamed renames) = scope.joins.map (Join.renamed other) := by
  refine List.map_congr_left fun join hjoin => ?_
  have hqualifier : join.qualifier ∈ scope.names :=
    List.mem_cons_of_mem _ (List.mem_map_of_mem hjoin)
  rw [Join.renamed, Join.renamed, Column.renamed, Column.renamed, Column.renamed, Column.renamed,
    hagree _ hqualifier, hagree _ (h.lefts join hjoin), hagree _ (h.rights join hjoin)]

end

/-- What a qualifier becomes behind a join is the same for all scopes on a table that know it. -/
theorem apply_renamesBehind_congr (join : Join) {first second : Scope}
    (htable : first.table = second.table) {qualifier : String} (hfirst : qualifier ∈ first.names)
    (hsecond : qualifier ∈ second.names) :
    (renamesBehind join first).apply qualifier = (renamesBehind join second).apply qualifier := by
  by_cases heq : qualifier = first.table
  · rw [heq, apply_renamesBehind_table, htable, apply_renamesBehind_table]
  · have hjoined := (List.mem_cons.mp hfirst).resolve_left heq
    have hne : qualifier ≠ second.table := fun hsame => heq (hsame.trans htable.symm)
    have hother := (List.mem_cons.mp hsecond).resolve_left hne
    rw [apply_renamesBehind_nested join hjoined heq, apply_renamesBehind_nested join hother hne]

/-- Joins behind a join that is there already are added behind it. -/
theorem addJoins_behind (joins : List Join) (join : Join) (change : Join → Join)
    (first second : List Join) :
    addJoins joins (join :: (addJoins first second).map change) =
      addJoins (addJoins joins (join :: first.map change)) (join :: second.map change) := by
  have hthere : join ∈ addJoins joins (join :: first.map change) :=
    mem_addJoins.mpr (Or.inr List.mem_cons_self)
  calc addJoins joins (join :: (addJoins first second).map change)
      = addJoins (addJoin joins join) ((addJoins first second).map change) := addJoins_cons ..
    _ = addJoins (addJoins (addJoin joins join) (first.map change)) (second.map change) :=
        addJoins_map_addJoins change _ first second
    _ = addJoins (addJoins joins (join :: first.map change)) (second.map change) := by
        rw [addJoins_cons joins]
    _ = addJoins (addJoins joins (join :: first.map change)) (join :: second.map change) := by
        rw [addJoins_cons _ join (second.map change), addJoins_of_mem hthere]

/-- Joining what two scopes on one related table require together is joining what each of them
requires, one after the other; the page is that of the owner's scope. -/
theorem conjoinVia_conjoin (scope : Scope) (join : Join) {first second : Scope}
    (htable : second.table = first.table) (hfirst : first.MentionsOwn)
    (hsecond : second.MentionsOwn) :
    scope.conjoinVia join (first.conjoin second) =
      (scope.conjoinVia join first).conjoinVia join second ∧
    (scope.conjoinVia join (first.conjoin second)).limit = scope.limit ∧
    (scope.conjoinVia join (first.conjoin second)).offset = scope.offset := by
  refine ⟨?_, rfl, rfl⟩
  set renames := renamesBehind join (first.conjoin second) with hrenames
  have htable_first : first.table = (first.conjoin second).table := rfl
  have htable_second : second.table = (first.conjoin second).table := htable
  have hagree : (renamesBehind join first).AgreeOn first.names renames := fun _ hmem =>
    apply_renamesBehind_congr join htable_first hmem (names_subset_conjoin first second hmem)
  have hagree_second : (renamesBehind join second).AgreeOn second.names renames := fun _ hmem =>
    apply_renamesBehind_congr join htable_second hmem (names_subset_conjoin_right htable hmem)
  have hjoins := addJoins_behind scope.joins join (Join.renamed renames) first.joins second.joins
  have hconditions : renamedAll renames (first.conditions ++ second.conditions) =
      renamedAll renames first.conditions ++ renamedAll renames second.conditions := by
    simp only [renamedAll_eq_map, List.map_append]
  rw [conjoinVia, conjoinVia, conjoinVia, hfirst.map_renamed_eq hagree,
    hfirst.renamedAll_eq hagree, hsecond.map_renamed_eq hagree_second,
    hsecond.renamedAll_eq hagree_second, conditions_conjoin, joins_conjoin, ← hrenames]
  dsimp only
  rw [hjoins, hconditions, List.append_assoc]

/-! ### Orders from shops in cities -/

def shopsTable : Table := .declare "Shop" "shops" "id" [("city_id", .integer), ("name", .string)]

/-- The join of the shop that an order went to. -/
def orderedFrom : Join := ⟨"shops", "shop", ⟨"shop", "id"⟩, ⟨"orders", "shop_id"⟩⟩

/-- The join of the city of a shop. -/
def shopCity : Join := ⟨"cities", "city", ⟨"city", "id"⟩, ⟨"shops", "city_id"⟩⟩

/-- The join of the parks in the city of a shop, which the shop reaches through the city. -/
def cityParks : Join := ⟨"parks", "parks", ⟨"parks", "city_id"⟩, ⟨"city", "id"⟩⟩

/-- The first three orders, with their shops. -/
def shopOrders : Scope :=
  { (all (.declare "Order" "orders" "id" [("shop_id", .integer)])).withJoin orderedFrom with
    limit := some 3 }

/-- The shops in a great city. -/
def greatShops : Scope :=
  ((all shopsTable).withJoin shopCity).narrow
    [.compares (.column ⟨"city", "size"⟩) .atLeast (.number (.integer 5))]

/-- The first two shops that have a name or no park in their city. -/
def parklessShops : Scope :=
  { ((all shopsTable).withJoin shopCity).withJoin cityParks with
    conditions := [.anyOf [.isNull (.column ⟨"parks", "id"⟩),
      .isAmong (.column ⟨"shops", "id"⟩) ((all shopsTable).narrow
        [.isNull (.column ⟨"shops", "name"⟩)]) true]]
    limit := some 2 }

/-- The shop is joined to the orders already, and the city is joined once for both scopes. What the
conditions say about the shop, the city and the parks they say about the joined ones; the shops
inside the last condition are those of its own scope. -/
theorem conjoinVia_conjoin_shops :
    parklessShops.table = greatShops.table ∧ greatShops.MentionsOwn ∧ parklessShops.MentionsOwn ∧
    shopOrders.conjoinVia orderedFrom (greatShops.conjoin parklessShops) =
      (shopOrders.conjoinVia orderedFrom greatShops).conjoinVia orderedFrom parklessShops ∧
    (shopOrders.conjoinVia orderedFrom (greatShops.conjoin parklessShops)).names =
      ["orders", "shop", "shop_city", "shop_parks"] ∧
    ((shopOrders.conjoinVia orderedFrom greatShops).conjoinVia orderedFrom parklessShops).joins =
      [⟨"shops", "shop", ⟨"shop", "id"⟩, ⟨"orders", "shop_id"⟩⟩,
        ⟨"cities", "shop_city", ⟨"shop_city", "id"⟩, ⟨"shop", "city_id"⟩⟩,
        ⟨"parks", "shop_parks", ⟨"shop_parks", "city_id"⟩, ⟨"shop_city", "id"⟩⟩] ∧
    ((shopOrders.conjoinVia orderedFrom greatShops).conjoinVia orderedFrom
        parklessShops).conditions =
      [.compares (.column ⟨"shop_city", "size"⟩) .atLeast (.number (.integer 5)),
        .anyOf [.isNull (.column ⟨"shop_parks", "id"⟩),
          .isAmong (.column ⟨"shop", "id"⟩) ((all shopsTable).narrow
            [.isNull (.column ⟨"shops", "name"⟩)]) true]] ∧
    (shopOrders.conjoinVia orderedFrom (greatShops.conjoin parklessShops)).limit = some 3 := by
  have hgreat : greatShops.MentionsOwn := ⟨by decide, by decide, by decide⟩
  have hparkless : parklessShops.MentionsOwn := ⟨by decide, by decide, by decide⟩
  have htable : parklessShops.table = greatShops.table := rfl
  obtain ⟨hequal, hlimit, -⟩ :=
    shopOrders.conjoinVia_conjoin orderedFrom htable hgreat hparkless
  exact ⟨htable, hgreat, hparkless, hequal, by decide, by decide, rfl, hlimit⟩

end Scope

end Sift
