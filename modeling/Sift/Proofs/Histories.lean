import Sift.Proofs.Registrations

/-!
# What a catalog holds after many registrations

A catalog is filled by declarations that are submitted one after the other. Some are rejected, some
replace the surface of a model that is there already. A model is in the catalog if one of its
declarations was accepted, and its surface is the one that the last of these was compiled to.

What that surface lists depends on the moment of its registration: it takes the names of the related
surfaces that the catalog had then, whatever happened to those later.
-/

namespace Sift

/-- A key has a value. -/
theorem Keyed.exists_lookup_of_mem_keys {α : Type} {entries : Keyed α} {key : String}
    (h : key ∈ Keyed.keys entries) : ∃ value, entries.lookup key = some value := by
  obtain ⟨entry, hentry, rfl⟩ := List.mem_map.mp h
  refine Option.isSome_iff_exists.mp ?_
  exact List.lookup_isSome_iff.mpr ⟨entry, hentry, beq_self_eq_true entry.1⟩

/-! ## Sorted names -/

@[simp] theorem mem_sortNames {names : List String} {name : String} :
    name ∈ sortNames names ↔ name ∈ names :=
  List.mem_mergeSort

/-- Sorted names that differ stand in strict order. -/
theorem pairwise_sortNames {names : List String} (hnodup : names.Nodup) :
    (sortNames names).Pairwise (· < ·) := by
  have hsorted : (sortNames names).Pairwise fun a b => decide (a ≤ b) = true := by
    refine List.pairwise_mergeSort (fun a b c hab hbc => ?_) (fun a b => ?_) names
    · exact decide_eq_true (String.le_trans (of_decide_eq_true hab) (of_decide_eq_true hbc))
    · simpa using String.le_total a b
  have hdistinct : (sortNames names).Nodup := (List.mergeSort_perm names _).nodup_iff.mpr hnodup
  refine hsorted.imp₂ (fun a b hle hne => String.not_le.mp fun hge => hne ?_) hdistinct
  exact String.le_antisymm (of_decide_eq_true hle) hge

/-- Different attributes have filters of different names. -/
theorem filterName_injective : Function.Injective filterName := by
  intro attr other h
  have hread := congrArg filterAttribute? h
  rw [filterAttribute?_filterName, filterAttribute?_filterName] at hread
  exact Option.some.inj hread

/-! ## Names of a compiled surface -/

/-- The names that a surface lists are those that its declaration gives it, where `lookUp` knows the
related surfaces: own names, and for each association its name, the filters of the related surface
and the scopes that it allows. -/
structure Surface.Lists (surface : Surface) (declaration : Declaration)
    (lookUp : String → Option Surface) : Prop where
  related : ∀ association ∈ declaration.associations,
    ∃ related, lookUp association.model = some related
  filters_sorted : surface.sortedFilters.Pairwise (· < ·)
  mem_filters : ∀ name, name ∈ surface.sortedFilters ↔
    (∃ attr ∈ declaration.attributes ++ declaration.virtualColumns.map Prod.fst,
      name = filterName attr) ∨
    ∃ association ∈ declaration.associations, ∃ related,
      lookUp association.model = some related ∧
        (name = filterName association.name ∨
          ∃ attr, filterName attr ∈ related.sortedFilters ∧
            name = filterName (association.name ++ "_" ++ attr))
  scopes_sorted : surface.sortedScopes.Pairwise (· < ·)
  mem_scopes : ∀ name, name ∈ surface.sortedScopes ↔
    name ∈ declaration.namedScopes.map Prod.fst ∨
    ∃ association ∈ declaration.associations, ∃ related,
      lookUp association.model = some related ∧
        ∃ scope ∈ related.allowedScopes, name = association.name ++ "_" ++ scope
  attributes : surface.attributes =
    (declaration.attributes ++ declaration.virtualColumns.map Prod.fst).eraseDups

/-- The listed filters are those that are kept. -/
theorem Surface.mem_sortedFilters {surface : Surface} {name : String} :
    name ∈ surface.sortedFilters ↔
      ∃ attr ∈ Keyed.keys surface.filters, name = filterName attr := by
  rw [sortedFilters, mem_sortNames, List.mem_map]
  simp only [eq_comm]

theorem Surface.filterName_mem_sortedFilters {surface : Surface} {attr : String} :
    filterName attr ∈ surface.sortedFilters ↔ attr ∈ Keyed.keys surface.filters := by
  rw [sortedFilters, mem_sortNames, List.mem_map_of_injective filterName_injective]

/-- An association makes a filter under its own name, and one for each filter of the related model.
-/
theorem Association.map_fst_filters (association : Association) (owner : Table)
    (related : Surface) :
    (association.filters owner related).map Prod.fst =
      association.name :: (Keyed.keys related.filters).map association.nestedName := by
  rw [filters, List.map_cons, List.map_map, Keyed.keys, List.map_map]
  rfl

/-- An association passes the allowed scopes on, and no others. -/
theorem Association.map_fst_scopes (association : Association) (owner : Table)
    (related : Surface) :
    (association.scopes owner related).map Prod.fst =
      related.allowedScopes.map association.nestedName := by
  rw [scopes, List.map_map]
  rfl

namespace Declaration

variable {declaration : Declaration} {lookUp : String → Option Surface} {defaults : Limits}
  {linked : List (Association × Surface)} {surface : Surface}

/-- The linked associations are the declared ones, each with the surface known for its model. -/
theorem exists_link_iff (hlinked : declaration.associations.mapM (declaration.link lookUp) =
    .ok linked) (property : String → Surface → Prop) :
    (∃ link ∈ linked, property link.1.name link.2) ↔
      ∃ association ∈ declaration.associations, ∃ related,
        lookUp association.model = some related ∧ property association.name related := by
  refine (exists_mem_congr_of_forall₂ (mapM_eq_ok.mp hlinked) fun association link hlink => ?_).symm
  obtain ⟨hrelated, hkeep⟩ := link_eq_ok hlink
  rw [hkeep, hrelated]
  constructor
  · rintro ⟨related, hsome, hproperty⟩
    rw [Option.some.inj hsome]
    exact hproperty
  · exact fun hproperty => ⟨link.2, rfl, hproperty⟩

/-- The attributes with filters are those that are declared and those that associations give. -/
theorem mem_keys_filters (hlinked : declaration.associations.mapM (declaration.link lookUp) =
    .ok linked) {attr : String} :
    attr ∈ Keyed.keys (declaration.surface defaults linked).filters ↔
      attr ∈ declaration.attributes ++ declaration.virtualColumns.map Prod.fst ∨
      ∃ association ∈ declaration.associations, ∃ related,
        lookUp association.model = some related ∧
          (attr = association.name ∨
            ∃ nested ∈ Keyed.keys related.filters, association.name ++ "_" ++ nested = attr) := by
  have hown : declaration.ownFilters.map Prod.fst =
      declaration.attributes ++ declaration.virtualColumns.map Prod.fst := by
    simp [ownFilters, Function.comp_def]
  rw [← exists_link_iff hlinked fun name related =>
    attr = name ∨ ∃ nested ∈ Keyed.keys related.filters, name ++ "_" ++ nested = attr]
  rw [surface, Keyed.mem_keys_ofList, List.map_append, List.mem_append, hown, List.map_flatMap]
  simp only [List.mem_flatMap, Association.map_fst_filters, List.mem_cons, List.mem_map,
    Association.nestedName]

/-- The named scopes are those that are declared and those that associations pass on. -/
theorem mem_keys_scopes (hlinked : declaration.associations.mapM (declaration.link lookUp) =
    .ok linked) {name : String} :
    name ∈ Keyed.keys (declaration.surface defaults linked).scopes ↔
      name ∈ declaration.namedScopes.map Prod.fst ∨
      ∃ association ∈ declaration.associations, ∃ related,
        lookUp association.model = some related ∧
          ∃ scope ∈ related.allowedScopes, association.name ++ "_" ++ scope = name := by
  have hown : (declaration.namedScopes.map fun entry => (entry.1, NamedScope.own entry.2)).map
      Prod.fst = declaration.namedScopes.map Prod.fst := by
    simp [Function.comp_def]
  rw [← exists_link_iff hlinked fun association related =>
    ∃ scope ∈ related.allowedScopes, association ++ "_" ++ scope = name]
  rw [surface, Keyed.mem_keys_ofList, List.map_append, List.mem_append, hown, List.map_flatMap]
  simp only [List.mem_flatMap, Association.map_fst_scopes, List.mem_map, Association.nestedName]

/-- A compiled surface lists what its declaration gives. -/
theorem lists_of_compile (h : declaration.compile lookUp defaults = .ok surface) :
    surface.Lists declaration lookUp := by
  obtain ⟨-, -, -, -, -, linked, hlinked, rfl⟩ := compile_eq_ok.mp h
  refine ⟨fun association hassociation => ?_, ?_, fun name => ?_, ?_, fun name => ?_, rfl⟩
  · -- every association has been linked
    obtain ⟨link, -, hlink⟩ := exists_result_of_mapM hlinked hassociation
    exact ⟨link.2, (link_eq_ok hlink).1⟩
  · exact pairwise_sortNames ((Keyed.nodup_keys_ofList _).map filterName_injective)
  · -- the filters, told by their attributes on one side and by their names on the other
    rw [Surface.mem_sortedFilters]
    simp only [mem_keys_filters hlinked, Surface.filterName_mem_sortedFilters]
    constructor
    · rintro ⟨attr, hattr | ⟨association, hassociation, related, hrelated, hname⟩, rfl⟩
      · exact Or.inl ⟨attr, hattr, rfl⟩
      · refine Or.inr ⟨association, hassociation, related, hrelated, ?_⟩
        rcases hname with rfl | ⟨nested, hnested, rfl⟩
        · exact Or.inl rfl
        · exact Or.inr ⟨nested, hnested, rfl⟩
    · rintro (⟨attr, hattr, rfl⟩ | ⟨association, hassociation, related, hrelated, hname⟩)
      · exact ⟨attr, Or.inl hattr, rfl⟩
      · rcases hname with rfl | ⟨nested, hnested, rfl⟩
        · exact ⟨_, Or.inr ⟨association, hassociation, related, hrelated, Or.inl rfl⟩, rfl⟩
        · exact ⟨_, Or.inr ⟨association, hassociation, related, hrelated,
            Or.inr ⟨nested, hnested, rfl⟩⟩, rfl⟩
  · exact pairwise_sortNames (Keyed.nodup_keys_ofList _)
  · -- the named scopes
    rw [Surface.sortedScopes, mem_sortNames, mem_keys_scopes hlinked]
    simp only [eq_comm]

theorem model_of_compile (h : declaration.compile lookUp defaults = .ok surface) :
    surface.model = declaration.table.model := by
  obtain ⟨-, -, -, -, -, linked, -, rfl⟩ := compile_eq_ok.mp h
  rfl

end Declaration

/-! ## Histories -/

namespace Catalog

variable {limits : Limits} {declarations before : List Declaration} {declaration : Declaration}
  {model : String} {surface : Surface}

/-- A declaration of a model was compiled to a surface, and no later one of the model was
accepted. -/
structure LastRegisters (limits : Limits) (declarations before : List Declaration)
    (declaration : Declaration) (model : String) (surface : Surface) : Prop where
  registers : Registers limits declarations before declaration surface
  model_eq : declaration.table.model = model
  last : ∀ earlier other compiled, Registers limits declarations earlier other compiled →
    other.table.model = model → earlier.length ≤ before.length

theorem submit_of_error {catalog : Catalog} {rejection : Rejection}
    (h : catalog.register declaration = .error rejection) :
    catalog.submit declaration = catalog := by
  rw [submit, h]

/-- A declaration that compiles is found under its model. -/
theorem get?_submit_self {catalog : Catalog}
    (h : declaration.compile catalog.get? catalog.limits = .ok surface) :
    (catalog.submit declaration).get? declaration.table.model = some surface := by
  rw [submit_eq, h, ← Declaration.model_of_compile h]
  exact get?_insert catalog surface

/-- A submission leaves the other models as they are. -/
theorem get?_submit_of_ne {catalog : Catalog}
    (h : ∀ surface, declaration.compile catalog.get? catalog.limits = .ok surface →
      declaration.table.model ≠ model) :
    (catalog.submit declaration).get? model = catalog.get? model := by
  rw [submit_eq]
  split
  · next surface hcompile =>
    refine get?_insert_of_ne catalog surface fun heq => h surface hcompile ?_
    rw [heq, Declaration.model_of_compile hcompile]
  · rfl

/-- No submission removes a model. -/
theorem exists_get?_submit {catalog : Catalog} (h : catalog.get? model = some surface) :
    ∃ kept, (catalog.submit declaration).get? model = some kept := by
  by_cases haccepted : ∃ compiled, declaration.compile catalog.get? catalog.limits = .ok compiled ∧
      declaration.table.model = model
  · obtain ⟨compiled, hcompile, rfl⟩ := haccepted
    exact ⟨compiled, get?_submit_self hcompile⟩
  · refine ⟨surface, (get?_submit_of_ne fun compiled hcompile hmodel => ?_).trans h⟩
    exact haccepted ⟨compiled, hcompile, hmodel⟩

/-- What is registered along a sequence: what was registered along the shorter one, and what the
last declaration is compiled to. -/
theorem registers_concat {other : Declaration} :
    Registers limits (declarations ++ [declaration]) before other surface ↔
      Registers limits declarations before other surface ∨
      before = declarations ∧ other = declaration ∧
        declaration.compile ((empty limits).registerAll declarations).get? limits = .ok surface := by
  constructor
  · rintro ⟨hplace, hcompiled⟩
    rcases List.prefix_concat_iff.mp hplace with heq | hplace
    · obtain ⟨rfl, hlast⟩ := List.append_inj' heq rfl
      obtain rfl := List.singleton_inj.mp hlast
      exact Or.inr ⟨rfl, rfl, hcompiled⟩
    · exact Or.inl ⟨hplace, hcompiled⟩
  · rintro (⟨hplace, hcompiled⟩ | ⟨rfl, rfl, hcompiled⟩)
    · exact ⟨hplace.trans (List.prefix_append ..), hcompiled⟩
    · exact ⟨List.prefix_rfl, hcompiled⟩

theorem not_registers_nil {other : Declaration} : ¬Registers limits [] before other surface := by
  intro h
  have hnil := List.prefix_nil.mp h.place
  exact List.append_ne_nil_of_right_ne_nil before (List.cons_ne_nil other []) hnil

/-- What is registered before a declaration is shorter than the whole. -/
theorem Registers.length_lt {other : Declaration}
    (h : Registers limits declarations before other surface) :
    before.length < declarations.length := by
  have hle := h.place.length_le
  rw [List.length_append, List.length_singleton] at hle
  omega

/-- A declaration that is accepted is the last of its model. -/
theorem lastRegisters_concat_self {other : Declaration} {compiled : Surface}
    (h : declaration.compile ((empty limits).registerAll declarations).get? limits =
      .ok compiled) :
    LastRegisters limits (declarations ++ [declaration]) before other declaration.table.model
        surface ↔
      before = declarations ∧ other = declaration ∧ surface = compiled := by
  have hnewest : Registers limits (declarations ++ [declaration]) declarations declaration
      compiled := registers_concat.mpr (Or.inr ⟨rfl, rfl, h⟩)
  constructor
  · intro hlast
    rcases registers_concat.mp hlast.registers with hearlier | ⟨hbefore, rfl, hcompiled⟩
    · -- an earlier one would not be the last
      exact absurd hearlier.length_lt (Nat.not_lt.mpr (hlast.last _ _ _ hnewest rfl))
    · exact ⟨hbefore, rfl, Except.ok.inj (hcompiled.symm.trans h)⟩
  · rintro ⟨rfl, rfl, rfl⟩
    refine ⟨hnewest, rfl, fun earlier other _ hother _ => ?_⟩
    have hlt := hother.length_lt
    rw [List.length_append, List.length_singleton] at hlt
    omega

/-- A declaration that is rejected or of another model changes nothing about a model. -/
theorem lastRegisters_concat_of_ne {other : Declaration}
    (h : ∀ compiled, declaration.compile ((empty limits).registerAll declarations).get? limits =
      .ok compiled → declaration.table.model ≠ model) :
    LastRegisters limits (declarations ++ [declaration]) before other model surface ↔
      LastRegisters limits declarations before other model surface := by
  have hsame : ∀ {earlier other compiled}, other.table.model = model →
      (Registers limits (declarations ++ [declaration]) earlier other compiled ↔
        Registers limits declarations earlier other compiled) := by
    intro earlier other compiled hmodel
    rw [registers_concat]
    refine or_iff_left ?_
    rintro ⟨-, rfl, hcompiled⟩
    exact h compiled hcompiled hmodel
  constructor
  · rintro ⟨hregisters, hmodel, hlast⟩
    exact ⟨(hsame hmodel).mp hregisters, hmodel, fun _ _ _ hother heq =>
      hlast _ _ _ ((hsame heq).mpr hother) heq⟩
  · rintro ⟨hregisters, hmodel, hlast⟩
    exact ⟨(hsame hmodel).mpr hregisters, hmodel, fun _ _ _ hother heq =>
      hlast _ _ _ ((hsame heq).mp hother) heq⟩

/-- For each model, a catalog holds the surface that its last accepted declaration was compiled
to. -/
theorem get?_registerAll :
    ((empty limits).registerAll declarations).get? model = some surface ↔
      ∃ before declaration, LastRegisters limits declarations before declaration model surface := by
  induction declarations using List.reverseRecOn generalizing surface with
  | nil =>
    constructor
    · intro h
      cases h
    · rintro ⟨before, declaration, h⟩
      exact absurd h.registers not_registers_nil
  | append_singleton declarations newest ih =>
    rw [registerAll_concat]
    -- the newest declaration takes its model over or changes nothing about the model
    by_cases hnewest : ∃ compiled, newest.compile
        ((empty limits).registerAll declarations).get? limits = .ok compiled ∧
          newest.table.model = model
    · obtain ⟨compiled, hcompile, rfl⟩ := hnewest
      simp only [lastRegisters_concat_self hcompile]
      rw [get?_submit_self (by rw [limits_registerAll]; exact hcompile)]
      constructor
      · intro h
        exact ⟨declarations, newest, rfl, rfl, (Option.some.inj h).symm⟩
      · rintro ⟨_, _, -, -, rfl⟩
        rfl
    · have hne : ∀ compiled, newest.compile ((empty limits).registerAll declarations).get?
          limits = .ok compiled → newest.table.model ≠ model :=
        fun compiled hcompile hmodel => hnewest ⟨compiled, hcompile, hmodel⟩
      simp only [lastRegisters_concat_of_ne hne]
      rw [get?_submit_of_ne (by rw [limits_registerAll]; exact hne)]
      exact ih

/-- A model that was registered once stays registered. -/
theorem Registers.exists_get?_registerAll
    (h : Registers limits declarations before declaration surface) :
    ∃ kept, ((empty limits).registerAll declarations).get? declaration.table.model = some kept := by
  induction declarations using List.reverseRecOn with
  | nil => exact absurd h not_registers_nil
  | append_singleton declarations newest ih =>
    rw [registerAll_concat]
    rcases registers_concat.mp h with hearlier | ⟨-, rfl, hcompile⟩
    · obtain ⟨kept, hkept⟩ := ih hearlier
      exact exists_get?_submit hkept
    · exact ⟨surface, get?_submit_self (by rw [limits_registerAll]; exact hcompile)⟩

/-- A model is in a catalog if one of its declarations was accepted. -/
theorem contains_registerAll :
    ((empty limits).registerAll declarations).contains model = true ↔
      ∃ before declaration surface, Registers limits declarations before declaration surface ∧
        declaration.table.model = model := by
  rw [contains, Option.isSome_iff_exists]
  constructor
  · rintro ⟨surface, h⟩
    obtain ⟨before, declaration, hlast⟩ := get?_registerAll.mp h
    exact ⟨before, declaration, surface, hlast.registers, hlast.model_eq⟩
  · rintro ⟨before, declaration, surface, hregisters, rfl⟩
    exact hregisters.exists_get?_registerAll

/-- Whatever is submitted, a catalog holds the models of the accepted declarations, each with what
the last of them was compiled to; rejected declarations change no entry. What a surface lists comes
from its declaration and from the surfaces that were in the catalog when it was compiled. -/
theorem holds_last_accepted (limits : Limits) (declarations : List Declaration) :
    (∀ model, ((empty limits).registerAll declarations).contains model = true ↔
      ∃ before declaration surface, Registers limits declarations before declaration surface ∧
        declaration.table.model = model) ∧
    (∀ model surface, ((empty limits).registerAll declarations).get? model = some surface ↔
      ∃ before declaration,
        LastRegisters limits declarations before declaration model surface) ∧
    (∀ before declaration rejection, before ++ [declaration] <+: declarations →
      ((empty limits).registerAll before).register declaration = .error rejection →
      ∀ model, ((empty limits).registerAll (before ++ [declaration])).get? model =
        ((empty limits).registerAll before).get? model) ∧
    ∀ before declaration surface, Registers limits declarations before declaration surface →
      surface.Lists declaration ((empty limits).registerAll before).get? := by
  refine ⟨fun model => contains_registerAll, fun model surface => get?_registerAll, ?_, ?_⟩
  · intro before declaration rejection _ hrejected model
    rw [registerAll_concat, submit_of_error hrejected]
  · intro before declaration surface hregisters
    exact Declaration.lists_of_compile hregisters.compiled

end Catalog

/-! ## A model that relates to itself -/

/-- Workers with a name. -/
def namedWorkers : Declaration :=
  .basic (.declare "Worker" "workers" "id" [("name", .string), ("boss_id", .integer)]) ["name"] []

/-- Workers with a name who have a boss among the workers. -/
def ledWorkers : Declaration :=
  { namedWorkers with associations := [⟨.belongsTo, "boss", "boss_id", "Worker"⟩] }

/-- Workers cannot have a boss before there are workers; then each registration leads one boss
further up. -/
def workerDeclarations : List Declaration :=
  [ledWorkers, namedWorkers, ledWorkers, ledWorkers]

/-- The workers that are known before the last registration. -/
def workersWithBoss : Surface :=
  (((Catalog.empty Limits.default).registerAll
    [ledWorkers, namedWorkers, ledWorkers]).get? "Worker").get rfl

/-- The workers that are known in the end. -/
def workersWithBosses : Surface :=
  (((Catalog.empty Limits.default).registerAll workerDeclarations).get? "Worker").get rfl

/-- The first registration is rejected and the last one is what counts. -/
theorem Catalog.holds_last_accepted_workers :
    ((empty Limits.default).registerAll []).register ledWorkers =
      .error (.unrelated "Worker" "Worker") ∧
    (∀ model, ((empty Limits.default).registerAll [ledWorkers]).get? model =
      ((empty Limits.default).registerAll []).get? model) ∧
    LastRegisters Limits.default workerDeclarations [ledWorkers, namedWorkers, ledWorkers]
      ledWorkers "Worker" workersWithBosses ∧
    ((empty Limits.default).registerAll workerDeclarations).get? "Worker" =
      some workersWithBosses ∧
    workersWithBosses.Lists ledWorkers
      ((empty Limits.default).registerAll [ledWorkers, namedWorkers, ledWorkers]).get? ∧
    "by_boss_boss_name" ∈ workersWithBosses.sortedFilters := by
  obtain ⟨-, hget, hrejected, hlists⟩ := holds_last_accepted Limits.default workerDeclarations
  have hregisters : Registers Limits.default workerDeclarations
      [ledWorkers, namedWorkers, ledWorkers] ledWorkers workersWithBosses :=
    ⟨List.prefix_rfl, rfl⟩
  have hlast : LastRegisters Limits.default workerDeclarations
      [ledWorkers, namedWorkers, ledWorkers] ledWorkers "Worker" workersWithBosses :=
    ⟨hregisters, rfl, fun _ _ _ hother _ => Nat.le_of_lt_succ hother.length_lt⟩
  have hnames := hlists _ _ _ hregisters
  have hboss : filterName "boss_name" ∈ workersWithBoss.sortedFilters :=
    Surface.filterName_mem_sortedFilters.mpr (by decide)
  refine ⟨rfl, ?_, hlast, (hget _ _).mpr ⟨_, _, hlast⟩, hnames, ?_⟩
  · exact hrejected [] ledWorkers _ (List.prefix_append ..) rfl
  · exact (hnames.mem_filters _).mpr (Or.inr ⟨_, List.mem_singleton_self _, workersWithBoss, rfl,
      Or.inr ⟨"boss_name", hboss, rfl⟩⟩)

end Sift
