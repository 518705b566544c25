import Mathlib.Data.List.Induction
import Sift.Catalog
import Sift.Proofs.DirectFilters

/-!
# Registered surfaces

A catalog comes from the empty one by registrations, some of which may be rejected. What holds of a
surface that is compiled against surfaces of which it holds, holds of every surface in the catalog
(`of_get?_registerAll`).

The first thing that is shown in this way: every filter of a registered surface follows associations
from the surface's own table, one after the other, to a target in the last table.
-/

namespace Sift

/-! ## Compiled declarations -/

namespace Declaration

/-- When a declaration compiles: every check passes and every association is linked. -/
theorem compile_eq_ok {declaration : Declaration} {lookUp : String → Option Surface}
    {defaults : Limits} {surface : Surface} :
    declaration.compile lookUp defaults = .ok surface ↔
      declaration.table.requireNames = .ok () ∧
      declaration.attributes.forM declaration.checkAttribute = .ok () ∧
      declaration.virtualColumns.forM checkVirtualColumn = .ok () ∧
      (declaration.namedScopes.forM fun entry => requireName .scope entry.1) = .ok () ∧
      declaration.allowedScopes.forM (requireName .scope) = .ok () ∧
      ∃ linked, declaration.associations.mapM (declaration.link lookUp) = .ok linked ∧
        surface = declaration.surface defaults linked := by
  simp only [compile, bind_eq_ok]
  constructor
  · rintro ⟨_, hnames, _, hattributes, _, hcolumns, _, hscopes, linked, hlinked, _, hallowed, h⟩
    cases h
    exact ⟨hnames, hattributes, hcolumns, hscopes, hallowed, linked, hlinked, rfl⟩
  · rintro ⟨hnames, hattributes, hcolumns, hscopes, hallowed, linked, hlinked, rfl⟩
    exact ⟨_, hnames, _, hattributes, _, hcolumns, _, hscopes, linked, hlinked, _, hallowed, rfl⟩

/-- A linked association is the declared one with the surface that is known for its model. -/
theorem link_eq_ok {declaration : Declaration} {lookUp : String → Option Surface}
    {association : AssociationDeclaration} {link : Association × Surface}
    (h : declaration.link lookUp association = .ok link) :
    lookUp association.model = some link.2 ∧
      link.1 = ⟨association.kind, association.name, association.foreignKey, link.2.table⟩ := by
  obtain ⟨-, -, h⟩ := bind_eq_ok.mp h
  obtain ⟨-, -, h⟩ := bind_eq_ok.mp h
  cases hrelated : lookUp association.model with
  | none =>
    rw [hrelated] at h
    cases h
  | some related =>
    rw [hrelated] at h
    obtain ⟨-, -, h⟩ := bind_eq_ok.mp h
    cases h
    exact ⟨rfl, rfl⟩

/-- The filters of a compiled surface are about attributes and virtual columns of the declaration,
or come through one of its associations. -/
theorem mem_filters_surface {declaration : Declaration} {defaults : Limits}
    {linked : List (Association × Surface)} {entry : String × Filter}
    (h : entry ∈ (declaration.surface defaults linked).filters) :
    (∃ attr ∈ declaration.attributes,
      entry.2 = .own declaration.columnTypes (.column attr)) ∨
    (∃ column ∈ declaration.virtualColumns,
      entry.2 = .own declaration.columnTypes (.expression column.2)) ∨
    ∃ link ∈ linked, entry ∈ link.1.filters declaration.table link.2 := by
  have hmem := Keyed.mem_of_mem_ofList h
  rcases List.mem_append.mp hmem with hown | hlinked
  · rcases List.mem_append.mp hown with hown | hown
    · obtain ⟨attr, hattr, rfl⟩ := List.mem_map.mp hown
      exact Or.inl ⟨attr, hattr, rfl⟩
    · obtain ⟨column, hcolumn, rfl⟩ := List.mem_map.mp hown
      exact Or.inr (Or.inl ⟨column, hcolumn, rfl⟩)
  · exact Or.inr (Or.inr (List.mem_flatMap.mp hlinked))

end Declaration

/-- The filters through an association go on with the related primary key or a related filter. -/
theorem Association.mem_filters {association : Association} {owner : Table} {related : Surface}
    {entry : String × Filter} (h : entry ∈ association.filters owner related) :
    ∃ next, entry.2 = .through (association.join owner) related.table next ∧
      (next = .own related.types (.column related.table.primaryKey) ∨
        ∃ name, (name, next) ∈ related.filters) := by
  rcases List.mem_cons.mp h with rfl | h
  · exact ⟨_, rfl, Or.inl rfl⟩
  · obtain ⟨⟨name, next⟩, hnext, rfl⟩ := List.mem_map.mp h
    exact ⟨next, rfl, Or.inr ⟨name, hnext⟩⟩

/-- A declaration of attributes and associations alone. -/
def Declaration.basic (table : Table) (attributes : List String)
    (associations : List AssociationDeclaration) : Declaration where
  table := table
  types := none
  limits := none
  attributes := attributes
  virtualColumns := []
  namedScopes := []
  allowedScopes := []
  associations := associations

/-! ## Sequences of registrations -/

namespace Catalog

/-- The catalog after a declaration was submitted; a rejected one leaves it as it is. -/
def submit (catalog : Catalog) (declaration : Declaration) : Catalog :=
  match catalog.register declaration with
  | .ok (registered, _) => registered
  | .error _ => catalog

/-- The catalog after declarations were submitted one after the other. -/
def registerAll (catalog : Catalog) (declarations : List Declaration) : Catalog :=
  declarations.foldl submit catalog

theorem submit_eq (catalog : Catalog) (declaration : Declaration) :
    catalog.submit declaration =
      match declaration.compile catalog.get? catalog.limits with
      | .ok surface => catalog.insert surface
      | .error _ => catalog := by
  rw [submit, register]
  cases declaration.compile catalog.get? catalog.limits <;> rfl

@[simp] theorem limits_submit (catalog : Catalog) (declaration : Declaration) :
    (catalog.submit declaration).limits = catalog.limits := by
  rw [submit_eq]
  split <;> rfl

@[simp] theorem limits_registerAll (catalog : Catalog) (declarations : List Declaration) :
    (catalog.registerAll declarations).limits = catalog.limits := by
  induction declarations generalizing catalog with
  | nil => rfl
  | cons declaration rest ih => exact (ih _).trans (catalog.limits_submit declaration)

theorem registerAll_concat (catalog : Catalog) (declarations : List Declaration)
    (declaration : Declaration) :
    catalog.registerAll (declarations ++ [declaration]) =
      (catalog.registerAll declarations).submit declaration := by
  rw [registerAll, List.foldl_append]
  rfl

/-- After a submission there are the surfaces from before it and the one that was compiled. -/
theorem get?_submit {catalog : Catalog} {declaration : Declaration} {model : String}
    {surface : Surface} (h : (catalog.submit declaration).get? model = some surface) :
    declaration.compile catalog.get? catalog.limits = .ok surface ∨
      catalog.get? model = some surface := by
  rw [submit_eq] at h
  split at h
  · next compiled hcompile =>
    by_cases heq : model = compiled.model
    · rw [heq, get?_insert] at h
      cases h
      exact Or.inl hcompile
    · rw [get?_insert_of_ne catalog compiled heq] at h
      exact Or.inr h
  · exact Or.inr h

/-- A declaration in a sequence was compiled to a surface, against the surfaces that the
declarations before it gave. -/
structure Registers (limits : Limits) (declarations before : List Declaration)
    (declaration : Declaration) (surface : Surface) : Prop where
  place : before ++ [declaration] <+: declarations
  compiled : declaration.compile ((empty limits).registerAll before).get? limits = .ok surface

variable {limits : Limits} {declarations : List Declaration} {property : Surface → Prop}

/-- A property that a surface gets when the surfaces it is compiled against have it is one of all
surfaces that declarations give. -/
theorem of_registers
    (hstep : ∀ before declaration surface,
      Registers limits declarations before declaration surface →
      (∀ model related, ((empty limits).registerAll before).get? model = some related →
        property related) → property surface)
    {model : String} {surface : Surface}
    (h : ((empty limits).registerAll declarations).get? model = some surface) :
    property surface := by
  suffices hall : ∀ before, before <+: declarations → ∀ model surface,
      ((empty limits).registerAll before).get? model = some surface → property surface from
    hall declarations List.prefix_rfl model surface h
  intro before
  induction before using List.reverseRecOn with
  | nil =>
    intro _ model surface hget
    cases hget
  | append_singleton before declaration ih =>
    intro hplace model surface hget
    have hbefore := ih ((List.prefix_append before [declaration]).trans hplace)
    rw [registerAll_concat] at hget
    rcases get?_submit hget with hcompile | hget
    · rw [limits_registerAll] at hcompile
      exact hstep before declaration surface ⟨hplace, hcompile⟩ hbefore
    · exact hbefore model surface hget

/-- The same for a property that does not depend on the sequence: it is enough that compiling keeps
it, whatever the known surfaces are. -/
theorem of_get?_registerAll
    (hstep : ∀ declaration ∈ declarations, ∀ (lookUp : String → Option Surface)
      (defaults : Limits) (surface : Surface),
      (∀ model related, lookUp model = some related → property related) →
      declaration.compile lookUp defaults = .ok surface → property surface)
    {model : String} {surface : Surface}
    (h : ((Catalog.empty limits).registerAll declarations).get? model = some surface) :
    property surface := by
  refine of_registers (fun before declaration surface hregisters hbefore => ?_) h
  have hmem : declaration ∈ declarations :=
    hregisters.place.subset (List.mem_append_right before (List.mem_singleton_self declaration))
  exact hstep declaration hmem _ limits surface hbefore hregisters.compiled

end Catalog

/-! ## Filters that follow associations -/

/-- A filter that follows associations from a table to a target. -/
inductive Filter.Follows : Table → Filter → Prop
  | own {owner : Table} (types : ColumnTypes) (target : Target) : Follows owner (.own types target)
  | through {owner : Table} {association : Association} {next : Filter}
      (hnext : Follows association.related next) :
    Follows owner (.through (association.join owner) association.related next)

/-- What a filter that follows associations selects without inversion is well scoped. -/
theorem Filter.Follows.scopedOver {owner : Table} {filter : Filter} (h : filter.Follows owner)
    {operator : Operator} {param : Json} {result : Scope}
    (hnarrow : filter.narrow ⟨operator, param, false⟩ (Scope.all owner) = .ok result) :
    result.ScopedOver owner := by
  induction h generalizing result with
  | own types target =>
    obtain ⟨conditions, hconditions, hnarrow⟩ := bind_eq_ok.mp hnarrow
    cases hnarrow
    exact Target.scopedOver_narrow hconditions
  | through hnext ih =>
    obtain ⟨matched, hmatched, hnarrow⟩ := bind_eq_ok.mp hnarrow
    cases hnarrow
    exact scopedOver_conjoinVia (ih hmatched)

/-- All filters of a surface follow associations from its table. -/
def Surface.FiltersFollow (surface : Surface) : Prop :=
  ∀ entry ∈ surface.filters, entry.2.Follows surface.table

theorem Declaration.filtersFollow_of_compile {declaration : Declaration}
    {lookUp : String → Option Surface} {defaults : Limits} {surface : Surface}
    (hlookUp : ∀ model related, lookUp model = some related → related.FiltersFollow)
    (h : declaration.compile lookUp defaults = .ok surface) : surface.FiltersFollow := by
  obtain ⟨-, -, -, -, -, linked, hlinked, rfl⟩ := compile_eq_ok.mp h
  intro entry hentry
  rcases mem_filters_surface hentry with ⟨attr, -, hown⟩ | ⟨column, -, hown⟩ | ⟨link, hlink, hentry⟩
  · rw [hown]
    exact .own _ _
  · rw [hown]
    exact .own _ _
  · obtain ⟨next, hthrough, hnext⟩ := Association.mem_filters hentry
    obtain ⟨association, -, hassociation⟩ := exists_input_of_mapM hlinked hlink
    obtain ⟨hrelated, hkeep⟩ := link_eq_ok hassociation
    have htable : link.1.related = link.2.table := by rw [hkeep]
    rw [hthrough, ← htable]
    refine .through ?_
    rcases hnext with rfl | ⟨name, hnext⟩
    · exact .own _ _
    · rw [htable]
      exact hlookUp _ _ hrelated _ hnext

/-- Every filter of a registered surface follows associations from the surface's table. -/
theorem filtersFollow_of_registerAll {limits : Limits} {declarations : List Declaration}
    {model : String} {surface : Surface}
    (h : ((Catalog.empty limits).registerAll declarations).get? model = some surface) :
    surface.FiltersFollow :=
  Catalog.of_get?_registerAll
    (fun _ _ _ _ _ hlookUp hcompile => Declaration.filtersFollow_of_compile hlookUp hcompile) h

end Sift
