import Sift.Proofs.InnerScopes
import Sift.Proofs.Registrations
import Sift.Proofs.Unions

/-!
# Properties that rules keep

Rules put a scope together from what filters select of all rows: they conjoin it with the scope so
far, they exclude it, and they unite what several of them leave. A property of scopes that filters
give, and that these three steps keep, holds of every scope that rules give and of the scopes inside
it.

A named scope may give any scope whatever. So this is for surfaces on which none can be called, as
in a catalog whose declarations give none: there is a named scope on a surface for each one that a
related model allows, but in the end it passes on to nothing.
-/

namespace Sift

/-! ## Surfaces without named scopes -/

/-- A named scope that passes on, through any number of associations, to one that is not there. -/
def NamedScope.LeadsNowhere : NamedScope → Prop
  | .own _ => False
  | .through _ _ next => next.LeadsNowhere
  | .absent _ => True

/-- No named scope of a surface leads anywhere. -/
def Surface.LacksScopes (surface : Surface) : Prop :=
  ∀ entry ∈ surface.scopes, entry.2.LeadsNowhere

/-- A named scope that leads nowhere never succeeds, behind however many associations. -/
theorem NamedScope.LeadsNowhere.narrow_ne_ok {namedScope : NamedScope}
    (h : namedScope.LeadsNowhere) (arguments : ScopeArguments) (scope result : Scope) :
    namedScope.narrow arguments scope ≠ .ok result := by
  induction namedScope generalizing scope result with
  | own function => exact h.elim
  | through join related next ih =>
    intro hnarrow
    obtain ⟨matched, hmatched, -⟩ := bind_eq_ok.mp hnarrow
    exact ih h _ _ hmatched
  | absent name =>
    intro hnarrow
    cases hnarrow

/-- On a surface without named scopes no call of one succeeds. -/
theorem Surface.LacksScopes.narrowByRule_ne_ok {surface : Surface} (h : surface.LacksScopes)
    (name : String) (param : Json) (scope result : Scope) :
    surface.narrowByRule (.scope name param) scope ≠ .ok result := by
  intro hnarrow
  obtain ⟨arguments, -, hcall⟩ := bind_eq_ok.mp hnarrow
  unfold narrowByScope at hcall
  cases hlookup : surface.scopes.lookup name with
  | none =>
    rw [hlookup] at hcall
    cases hcall
  | some namedScope =>
    rw [hlookup] at hcall
    have hnowhere : namedScope.LeadsNowhere := h (name, namedScope) (Keyed.mem_of_lookup hlookup)
    exact hnowhere.narrow_ne_ok arguments scope result hcall

/-- What an owner gets through an association leads nowhere if the related scopes do. -/
theorem Association.leadsNowhere_scopes {association : Association} {owner : Table}
    {related : Surface} (h : related.LacksScopes) :
    ∀ entry ∈ association.scopes owner related, entry.2.LeadsNowhere := by
  intro entry hentry
  obtain ⟨name, -, rfl⟩ := List.mem_map.mp hentry
  show ((related.scopes.lookup name).getD (.absent name)).LeadsNowhere
  cases hlookup : related.scopes.lookup name with
  | none => trivial
  | some namedScope => exact h (name, namedScope) (Keyed.mem_of_lookup hlookup)

/-- A surface lacks named scopes if its declaration has none and the related surfaces lack them. -/
theorem Declaration.lacksScopes_of_compile {declaration : Declaration}
    (hnone : declaration.namedScopes = []) {lookUp : String → Option Surface} {defaults : Limits}
    {surface : Surface}
    (hlookUp : ∀ model related, lookUp model = some related → related.LacksScopes)
    (h : declaration.compile lookUp defaults = .ok surface) : surface.LacksScopes := by
  obtain ⟨-, -, -, -, -, linked, hlinked, rfl⟩ := compile_eq_ok.mp h
  intro entry hentry
  have hmem := Keyed.mem_of_mem_ofList hentry
  rw [hnone, List.map_nil, List.nil_append] at hmem
  obtain ⟨link, hlink, hentry⟩ := List.mem_flatMap.mp hmem
  obtain ⟨association, -, hassociation⟩ := exists_input_of_mapM hlinked hlink
  have hrelated : link.2.LacksScopes := hlookUp _ _ (link_eq_ok hassociation).1
  exact Association.leadsNowhere_scopes hrelated entry hentry

/-- Where no declaration gives a named scope, no surface has one that can be called. -/
theorem lacksScopes_of_registerAll {limits : Limits} {declarations : List Declaration}
    (hnone : ∀ declaration ∈ declarations, declaration.namedScopes = []) {model : String}
    {surface : Surface}
    (h : ((Catalog.empty limits).registerAll declarations).get? model = some surface) :
    surface.LacksScopes :=
  Catalog.of_get?_registerAll
    (fun declaration hdeclaration _ _ _ hlookUp hcompile =>
      Declaration.lacksScopes_of_compile (hnone declaration hdeclaration) hlookUp hcompile) h

/-! ## One step -/

/-- A scope and all scopes inside it have a property. -/
def Scope.Throughout (property : Scope → Prop) (scope : Scope) : Prop :=
  ∀ part ∈ scope :: scope.inner, property part

/-- A property of scopes of a surface's rows that its filters give and that rules keep. Rules add
conditions of their own about the primary key alone. -/
structure Surface.Keeps (surface : Surface) (property : Scope → Prop) : Prop where
  overTable : ∀ scope, property scope → scope.Over surface.table
  all : property surface.all
  withoutPage : ∀ scope, property scope → property scope.withoutPage
  conjoin : ∀ scope other, property scope → property other → property (scope.conjoin other)
  narrow : ∀ scope conditions, property scope →
    (∀ operand ∈ operandsOf conditions, operand = scope.key) → property (scope.narrow conditions)
  selected : ∀ entry ∈ surface.filters, ∀ operator param matched,
    entry.2.narrow ⟨operator, param, false⟩ surface.all = .ok matched → property matched

theorem Surface.inner_all (surface : Surface) : surface.all.inner = [] :=
  Scope.inner_eq surface.all

/-- Inside a union are its branches without their pages, each followed by what is inside it. -/
theorem Surface.inner_union (surface : Surface) (branches : List Scope) :
    (surface.union branches).inner =
      branches.flatMap fun branch => branch.withoutPage :: branch.inner := by
  have hbranches : ∀ branches : List Scope,
      innerOf (branches.map fun branch => .isAmong surface.all.key branch.withoutPage false) =
        branches.flatMap fun branch => branch.withoutPage :: branch.inner := by
    intro branches
    induction branches with
    | nil => rfl
    | cons branch rest ih =>
      rw [List.map_cons, innerOf, ih, Condition.inner, Scope.inner_withoutPage, List.flatMap_cons]
  rw [union, Scope.inner_narrow, inner_all, innerOf, innerOf, Condition.inner, hbranches,
    List.append_nil, List.nil_append]

namespace Surface.Keeps

variable {surface : Surface} {property : Scope → Prop}

theorem throughout_all (h : surface.Keeps property) : surface.all.Throughout property := by
  intro part hpart
  rw [inner_all] at hpart
  rw [List.mem_singleton.mp hpart]
  exact h.all

theorem throughout_withoutPage (h : surface.Keeps property) {scope : Scope}
    (hscope : scope.Throughout property) : scope.withoutPage.Throughout property := by
  obtain ⟨hself, hinner⟩ := List.forall_mem_cons.mp hscope
  refine List.forall_mem_cons.mpr ⟨h.withoutPage scope hself, ?_⟩
  rw [Scope.inner_withoutPage]
  exact hinner

/-- A conjunction keeps a property that both scopes have throughout. -/
theorem throughout_conjoin (h : surface.Keeps property) {scope other : Scope}
    (hscope : scope.Throughout property) (hother : other.Throughout property) :
    (scope.conjoin other).Throughout property := by
  obtain ⟨hself, hinner⟩ := List.forall_mem_cons.mp hscope
  obtain ⟨hself_other, hinner_other⟩ := List.forall_mem_cons.mp hother
  refine List.forall_mem_cons.mpr ⟨h.conjoin scope other hself hself_other, ?_⟩
  rw [Scope.inner_conjoin]
  exact List.forall_mem_append.mpr ⟨hinner, hinner_other⟩

/-- So does a scope from which another one is excluded, which comes to be inside it. -/
theorem throughout_excluding (h : surface.Keeps property) {scope matched : Scope}
    (hscope : scope.Throughout property) (hmatched : matched.Throughout property) :
    (scope.excluding matched).Throughout property := by
  obtain ⟨hself, hinner⟩ := List.forall_mem_cons.mp hscope
  have hkey : ∀ operand ∈ operandsOf [.isAmong scope.key matched.withoutPage true],
      operand = scope.key := fun operand hoperand => List.mem_singleton.mp hoperand
  refine List.forall_mem_cons.mpr ⟨h.narrow scope _ hself hkey, ?_⟩
  have hremoved := h.throughout_withoutPage hmatched
  rw [Scope.Throughout, Scope.inner_withoutPage] at hremoved
  rw [Scope.inner_excluding]
  exact List.forall_mem_append.mpr ⟨hinner, hremoved⟩

/-- So does a union of branches. -/
theorem throughout_union (h : surface.Keeps property) {branches : List Scope}
    (hbranches : ∀ branch ∈ branches, branch.Throughout property) :
    (surface.union branches).Throughout property := by
  refine List.forall_mem_cons.mpr ⟨h.narrow surface.all _ h.all fun operand hoperand => ?_, ?_⟩
  · rw [operandsOf, operandsOf, List.append_nil, Condition.operands] at hoperand
    obtain ⟨condition, hcondition, hoperand⟩ := mem_operandsOf.mp hoperand
    obtain ⟨branch, -, rfl⟩ := List.mem_map.mp hcondition
    exact List.mem_singleton.mp hoperand
  · intro part hpart
    rw [inner_union] at hpart
    obtain ⟨branch, hbranch, hpart⟩ := List.mem_flatMap.mp hpart
    have hremoved := h.throughout_withoutPage (hbranches branch hbranch)
    rw [Scope.Throughout, Scope.inner_withoutPage] at hremoved
    exact hremoved part hpart

/-- What a plain filter selects holds no scope inside, so its own property is enough. -/
theorem throughout_selected (h : surface.Keeps property) {entry : String × Filter}
    (hentry : entry ∈ surface.filters) {operator : Operator} {param : Json} {matched : Scope}
    (hmatched : entry.2.narrow ⟨operator, param, false⟩ surface.all = .ok matched) :
    matched.Throughout property := by
  have hinner : matched.inner = [] := Filter.inner_narrow_plain hmatched
  intro part hpart
  rw [hinner] at hpart
  rw [List.mem_singleton.mp hpart]
  exact h.selected entry hentry operator param matched hmatched

/-- A leaf keeps the property, whether it is inverted or not. -/
theorem throughout_leaf (h : surface.Keeps property) {attr : String} {arguments : Arguments}
    {scope result : Scope} (hscope : scope.Throughout property)
    (hrule : surface.narrowByRule (.leaf attr arguments) scope = .ok result) :
    result.Throughout property := by
  obtain ⟨operator, param, invert⟩ := arguments
  obtain ⟨filter, hlookup, hnarrow⟩ := narrowByAttribute_eq_ok.mp hrule
  have hentry : (attr, filter) ∈ surface.filters := Keyed.mem_of_lookup hlookup
  have hover : scope.Over surface.table := h.overTable scope (hscope scope (List.mem_cons_self ..))
  have hcleared : scope.cleared = surface.all := hover.cleared_eq
  cases invert with
  | false =>
    rw [Filter.narrow_plain, hcleared, map_eq_ok] at hnarrow
    obtain ⟨matched, hmatched, rfl⟩ := hnarrow
    exact h.throughout_conjoin hscope (h.throughout_selected hentry hmatched)
  | true =>
    rw [Filter.narrow_inverted, hcleared, map_eq_ok] at hnarrow
    obtain ⟨matched, hmatched, rfl⟩ := hnarrow
    exact h.throughout_excluding hscope (h.throughout_selected hentry hmatched)

/-- Combining rules keeps the property if both ways of doing so get parts that have it. -/
theorem throughout_combine (h : surface.Keeps property) {rules : List Rule}
    (hall : ∀ combined, surface.narrowByAll rules surface.all = .ok combined →
      combined.Throughout property)
    (hany : ∀ branches, surface.branches rules = .ok branches →
      ∀ branch ∈ branches, branch.Throughout property)
    {conjunction : Conjunction} {combined : Scope}
    (hcombined : surface.combine rules conjunction = .ok combined) :
    combined.Throughout property := by
  cases conjunction with
  | exclusive => exact hall combined hcombined
  | inclusive =>
    cases rules with
    | nil =>
      cases hcombined
      exact h.throughout_all
    | cons first rest =>
      obtain ⟨branches, hbranches, hcombined⟩ := bind_eq_ok.mp hcombined
      cases hcombined
      exact h.throughout_union (hany branches hbranches)

end Surface.Keeps

/-! ## Whole rule trees -/

mutual

/-- Narrowing by a rule keeps a property throughout. -/
theorem Surface.Keeps.throughout_rule {surface : Surface} {property : Scope → Prop}
    (h : surface.Keeps property) (hlacks : surface.LacksScopes) : (rule : Rule) →
    ∀ {scope result : Scope}, scope.Throughout property →
      surface.narrowByRule rule scope = .ok result → result.Throughout property
  | .blank, scope, result, hscope, hrule => by
    cases hrule
    exact hscope
  | .scope name param, scope, result, _, hrule =>
    absurd hrule (hlacks.narrowByRule_ne_ok name param scope result)
  | .leaf _ _, _, _, hscope, hrule => h.throughout_leaf hscope hrule
  | .composite rules conjunction, scope, result, hscope, hrule => by
    rw [Surface.narrowByRule_composite, map_eq_ok] at hrule
    obtain ⟨combined, hcombined, rfl⟩ := hrule
    -- the rules inside are combined from all rows and then conjoined
    refine h.throughout_conjoin hscope (h.throughout_combine ?_ ?_ hcombined)
    · exact fun _ => throughout_rules h hlacks rules h.throughout_all
    · exact fun _ => throughout_branches h hlacks rules

/-- Rules that must all hold keep the property from one scope to the next. -/
theorem Surface.Keeps.throughout_rules {surface : Surface} {property : Scope → Prop}
    (h : surface.Keeps property) (hlacks : surface.LacksScopes) : (rules : List Rule) →
    ∀ {scope result : Scope}, scope.Throughout property →
      surface.narrowByAll rules scope = .ok result → result.Throughout property
  | [], scope, result, hscope, hrules => by
    cases hrules
    exact hscope
  | rule :: rest, scope, result, hscope, hrules => by
    obtain ⟨narrowed, hnarrowed, hrules⟩ := bind_eq_ok.mp hrules
    have hfirst := throughout_rule h hlacks rule hscope hnarrowed
    exact throughout_rules h hlacks rest hfirst hrules

/-- Every branch starts from all rows, so the rules of a union need no assumption about a scope. -/
theorem Surface.Keeps.throughout_branches {surface : Surface} {property : Scope → Prop}
    (h : surface.Keeps property) (hlacks : surface.LacksScopes) : (rules : List Rule) →
    ∀ {branches : List Scope}, surface.branches rules = .ok branches →
      ∀ branch ∈ branches, branch.Throughout property
  | [], branches, hbranches => by
    cases hbranches
    exact fun _ hbranch => absurd hbranch List.not_mem_nil
  | rule :: rest, branches, hbranches => by
    obtain ⟨branch, hbranch, hbranches⟩ := bind_eq_ok.mp hbranches
    obtain ⟨others, hothers, hbranches⟩ := bind_eq_ok.mp hbranches
    cases hbranches
    exact List.forall_mem_cons.mpr ⟨throughout_rule h hlacks rule h.throughout_all hbranch,
      throughout_branches h hlacks rest hothers⟩

end

/-- Filtering keeps a property throughout. -/
theorem Surface.Keeps.throughout_narrowByRules {surface : Surface} {property : Scope → Prop}
    (h : surface.Keeps property) (hlacks : surface.LacksScopes) {base result : Scope}
    (hbase : base.Throughout property) {rules : List Rule} {conjunction : Conjunction}
    (hrules : surface.narrowByRules base rules conjunction = .ok result) :
    result.Throughout property := by
  rcases narrowByRules_eq_ok.mp hrules with ⟨-, rfl⟩ | ⟨-, combined, hcombined, rfl⟩
  · exact hbase
  · refine h.throughout_conjoin hbase (h.throughout_combine ?_ ?_ hcombined)
    · exact fun _ => throughout_rules h hlacks rules h.throughout_all
    · exact fun _ => throughout_branches h hlacks rules

end Sift
