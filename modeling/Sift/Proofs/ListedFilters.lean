import Sift.Proofs.Histories
import Sift.Proofs.LeafRejections
import Sift.Proofs.RegisteredNames

/-!
# Applying listed filters

A surface lists its filters by name, and equality applies to columns of every type. So all that can
go wrong with a listed filter is that its column has no type. A registration asks for the type of
each attribute. It does not ask for that of a related primary key, by which associations filter on
their own: with column types that do not know it, such a filter is listed and then rejected.
-/

namespace Sift

/-! ## Where filters end -/

/-- The column without a type at which a filter of a model ends, if it ends at such a column. -/
def Filter.untyped? (model : String) : Filter → Option String
  | .own types (.column name) => if (types model name).isSome then none else some name
  | .own _ (.expression _) => none
  | .through _ related next => next.untyped? related.model

/-- A filter that follows associations from an owner to the primary key of a related surface. -/
inductive Filter.EndsAtKey (relates : Surface → Surface → Prop) : Surface → Surface → Filter → Prop
  | key {owner related : Surface} {association : Association}
      (hmem : association ∈ owner.associations) (hrelates : relates owner related)
      (hrelated : association.related = related.table) :
    EndsAtKey relates owner related (.through (association.join owner.table) association.related
      (.own related.types (.column related.table.primaryKey)))
  | behind {owner between related : Surface} {association : Association} {next : Filter}
      (hmem : association ∈ owner.associations) (hrelates : relates owner between)
      (hrelated : association.related = between.table)
      (hnext : EndsAtKey relates between related next) :
    EndsAtKey relates owner related
      (.through (association.join owner.table) association.related next)

/-- A declaration whose types know the primary key of its table. -/
def Declaration.KeyTyped (declaration : Declaration) : Prop :=
  (declaration.columnTypes declaration.table.model declaration.table.primaryKey).isSome

instance (declaration : Declaration) : Decidable declaration.KeyTyped :=
  inferInstanceAs (Decidable (_ = true))

/-- A surface whose types know the primary key of its table. -/
def Surface.KeyTyped (surface : Surface) : Prop :=
  (surface.types surface.model surface.table.primaryKey).isSome

instance (surface : Surface) : Decidable surface.KeyTyped :=
  inferInstanceAs (Decidable (_ = true))

/-- The filter with a name ends at the primary key of a related surface whose types do not know
it. -/
def Surface.EndsUntyped (relates : Surface → Surface → Prop) (owner : Surface) (name : String)
    (related : Surface) : Prop :=
  ∃ filter, owner.filter? name = some filter ∧ filter.EndsAtKey relates owner related ∧
    ¬related.KeyTyped

/-! ## Equality -/

/-- What comes of a filter that ends at a column without a type, and of any other. -/
def requireTyped : Option String → Except Rejection Unit
  | none => .ok ()
  | some name => .error (.unfilterable (filterName name))

/-- Equality on a target of the table itself fails only at a column without a type. -/
theorem Target.verdict_equals (types : ColumnTypes) (target : Target) (param : Json)
    (scope : Scope) :
    verdict (target.narrow types ⟨.equals, param, false⟩ scope) =
      requireTyped ((Filter.own types target).untyped? scope.model) := by
  cases target with
  | expression sql => rfl
  | column name =>
    rw [narrow, conditions, type, Filter.untyped?]
    cases types scope.model name with
    | none => rfl
    | some known =>
      simp only [if_pos (Operator.mem_applicableTypes_equals known)]
      rfl

/-- Equality fails at columns without a type only, whatever the parameter is. -/
theorem Filter.verdict_equals (filter : Filter) (param : Json) (scope : Scope) :
    verdict (filter.narrow ⟨.equals, param, false⟩ scope) =
      requireTyped (filter.untyped? scope.model) := by
  induction filter generalizing scope with
  | own types target => exact target.verdict_equals types param scope
  | through join related next ih =>
    have hnext : verdict (next.narrow ⟨.equals, param, false⟩ (Scope.all related)) =
        requireTyped (next.untyped? related.model) := ih (Scope.all related)
    rw [untyped?, ← hnext, narrow, Arguments.plain]
    cases next.narrow ⟨.equals, param, false⟩ (Scope.all related) <;> rfl

theorem verdict_eq_ok {α : Type} {outcome : Except Rejection α} :
    verdict outcome = .ok () ↔ ∃ result, outcome = .ok result :=
  map_eq_ok.trans (exists_congr fun _ => and_iff_left rfl)

/-- A filter passes equality unless it ends at a column without a type. -/
theorem Surface.verdict_narrowBy_equals {surface : Surface} {name : String} {filter : Filter}
    (h : surface.filter? name = some filter) (param : Json) (invert : Bool) :
    verdict (surface.narrowBy name ⟨.equals, param, invert⟩ surface.all) =
      requireTyped (filter.untyped? surface.model) := by
  rw [surface.verdict_narrowBy name ⟨.equals, param, invert⟩ surface.over_all, narrowBy, h]
  exact filter.verdict_equals param surface.all

/-! ## Registered surfaces -/

variable {limits : Limits} {declarations : List Declaration} {model : String} {surface : Surface}

/-- A filter that ends at a related key fails equality exactly if the related surface gives its key
no type. -/
theorem Filter.EndsAtKey.untyped?_eq {relates : Surface → Surface → Prop} {owner related : Surface}
    {filter : Filter} (h : filter.EndsAtKey relates owner related) :
    filter.untyped? owner.model =
      if related.KeyTyped then none else some related.table.primaryKey := by
  induction h with
  | key _ _ hrelated => rw [untyped?, untyped?, hrelated]; rfl
  | behind _ _ hrelated _ ih => rw [untyped?, hrelated]; exact ih

/-- An attribute that is accepted has a type. -/
theorem Declaration.typed_of_checkAttribute {declaration : Declaration} {attr : String}
    (h : declaration.checkAttribute attr = .ok ()) :
    (declaration.columnTypes declaration.table.model attr).isSome := by
  obtain ⟨-, -, h⟩ := bind_eq_ok.mp h
  cases htype : declaration.columnTypes declaration.table.model attr with
  | none =>
    rw [htype] at h
    cases h
  | some type => rfl

/-- Among the filters of a surface, only those that end at related keys end at columns without a
type. -/
def Surface.UntypedAtKeys (relates : Surface → Surface → Prop) (surface : Surface) : Prop :=
  ∀ entry ∈ surface.filters, ∀ name, entry.2.untyped? surface.model = some name →
    ∃ related, entry.2.EndsAtKey relates surface related

/-- On every registered surface only the filters that end at related keys may lack a type. -/
theorem Catalog.untypedAtKeys_of_registerAll
    (hsurface : ((empty limits).registerAll declarations).get? model = some surface) :
    surface.UntypedAtKeys (Relates limits declarations) := by
  refine of_registers (fun before declaration surface hregisters hbefore => ?_) hsurface
  intro entry hentry name huntyped
  rcases hregisters.mem_filters hentry with ⟨attr, hattr, hown⟩ | ⟨column, -, hown⟩ |
    ⟨association, hmem, related, next, hrelates, hrelated, ⟨model, hget⟩, hthrough, hnext⟩
  · -- the registration has asked for the type of the attribute
    obtain ⟨-, hattributes, -, -, -, linked, -, rfl⟩ :=
      Declaration.compile_eq_ok.mp hregisters.compiled
    have htyped := Declaration.typed_of_checkAttribute (forM_eq_ok.mp hattributes attr hattr)
    rw [hown] at huntyped
    exact absurd (huntyped.symm.trans (if_pos htyped)) (Option.some_ne_none name)
  · rw [hown] at huntyped
    cases huntyped
  · -- behind an association there is the key, or a filter that was registered before
    rw [hthrough] at huntyped ⊢
    rw [Filter.untyped?, hrelated] at huntyped
    rcases hnext with rfl | ⟨nested, hnext⟩
    · exact ⟨related, .key hmem hrelates hrelated⟩
    · obtain ⟨reached, hreached⟩ := hbefore model related hget _ hnext name huntyped
      exact ⟨reached, .behind hmem hrelates hrelated hreached⟩

/-- The types of a registered surface know the key of its table if its declaration's do. -/
theorem Catalog.keyTyped_of_relates {owner related : Surface}
    (htyped : ∀ declaration ∈ declarations, declaration.KeyTyped)
    (h : Relates limits declarations owner related) : related.KeyTyped := by
  obtain ⟨before, declaration, hregisters, association, -, hget⟩ := h
  refine of_get?_registerAll (fun other hmem _ _ surface _ hcompile => ?_) hget
  obtain ⟨-, -, -, -, -, linked, -, rfl⟩ := Declaration.compile_eq_ok.mp hcompile
  have hbefore : before <+: declarations :=
    (List.prefix_append before [declaration]).trans hregisters.place
  exact htyped other (hbefore.subset hmem)

theorem Filter.EndsAtKey.exists_relates {relates : Surface → Surface → Prop}
    {owner related : Surface} {filter : Filter} (h : filter.EndsAtKey relates owner related) :
    ∃ between, relates between related := by
  induction h with
  | key _ hrelates _ => exact ⟨_, hrelates⟩
  | behind _ _ _ _ ih => exact ih

theorem Surface.exists_filter_of_listed {surface : Surface} {name : String}
    (h : name ∈ surface.sortedFilters) :
    ∃ filter attr, surface.filter? name = some filter ∧ (attr, filter) ∈ surface.filters := by
  obtain ⟨attr, hattr, rfl⟩ := mem_sortedFilters.mp h
  obtain ⟨filter, hfilter⟩ := Keyed.exists_lookup_of_mem_keys hattr
  rw [filter?_filterName]
  exact ⟨filter, attr, hfilter, Keyed.mem_of_lookup hfilter⟩

/-- A listed filter passes equality with any parameter, inverted or not, unless it ends at the
primary key of a related surface whose types do not know that key; then equality is rejected for the
key. If all declarations know the types of their own keys, every listed filter passes. -/
theorem Surface.narrowBy_listed
    (hsurface : ((Catalog.empty limits).registerAll declarations).get? model = some surface)
    {name : String} (hname : name ∈ surface.sortedFilters) (param : Json) (invert : Bool) :
    ((∃ result, surface.narrowBy name ⟨.equals, param, invert⟩ surface.all = .ok result) ↔
      ¬∃ related, surface.EndsUntyped (Catalog.Relates limits declarations) name related) ∧
    (∀ related, surface.EndsUntyped (Catalog.Relates limits declarations) name related →
      surface.narrowBy name ⟨.equals, param, invert⟩ surface.all =
        .error (.unfilterable (filterName related.table.primaryKey))) ∧
    ((∀ declaration ∈ declarations, declaration.KeyTyped) →
      ∃ result, surface.narrowBy name ⟨.equals, param, invert⟩ surface.all = .ok result) := by
  obtain ⟨filter, attr, hfilter, hmem⟩ := exists_filter_of_listed hname
  have hverdict := verdict_narrowBy_equals hfilter param invert
  have hrejected : ∀ related, surface.EndsUntyped (Catalog.Relates limits declarations) name
      related → surface.narrowBy name ⟨.equals, param, invert⟩ surface.all =
        .error (.unfilterable (filterName related.table.primaryKey)) := by
    rintro related ⟨found, hfound, hends, huntyped⟩
    obtain rfl := Option.some.inj (hfilter.symm.trans hfound)
    rw [hends.untyped?_eq, if_neg huntyped] at hverdict
    exact verdict_eq_error.mp hverdict
  have hpasses : (¬∃ related, surface.EndsUntyped (Catalog.Relates limits declarations) name
      related) → ∃ result, surface.narrowBy name ⟨.equals, param, invert⟩ surface.all =
        .ok result := by
    intro hnone
    refine verdict_eq_ok.mp (hverdict.trans ?_)
    cases huntyped : filter.untyped? surface.model with
    | none => rfl
    | some column =>
      obtain ⟨related, hends⟩ :=
        Catalog.untypedAtKeys_of_registerAll hsurface _ hmem column huntyped
      -- a key with a type would not have been reported as the column without one
      refine absurd ⟨related, filter, hfilter, hends, fun htyped => ?_⟩ hnone
      rw [hends.untyped?_eq, if_pos htyped] at huntyped
      cases huntyped
  refine ⟨⟨?_, hpasses⟩, hrejected, fun htyped => hpasses ?_⟩
  · rintro ⟨result, hresult⟩ ⟨related, hends⟩
    rw [hrejected related hends] at hresult
    cases hresult
  · rintro ⟨related, found, -, hends, huntyped⟩
    obtain ⟨between, hrelates⟩ := hends.exists_relates
    exact huntyped (Catalog.keyTyped_of_relates htyped hrelates)

/-! ## Types that do not know a key -/

/-- Friends with types that are given by hand, for the nickname alone. -/
def friendDeclaration : Declaration where
  table := .declare "Friend" "friends" "id" [("nickname", .string)]
  types := some fun _ attr => if attr = "nickname" then some .string else none
  limits := none
  attributes := ["nickname"]
  virtualColumns := []
  namedScopes := []
  allowedScopes := []
  associations := []

/-- Friends and their posts. -/
def friendDeclarations : List Declaration :=
  [friendDeclaration,
    .basic (.declare "Post" "posts" "id" [("friend_id", .integer)]) []
      [⟨.belongsTo, "friend", "friend_id", "Friend"⟩]]

/-- The posts of friends, as they are registered. -/
def friendPosts : Surface :=
  (((Catalog.empty Limits.default).registerAll friendDeclarations).get? "Post").get rfl

/-- Posts of friends list a filter that they reject, inverted or not. -/
theorem Surface.narrowBy_listed_rejected :
    ((Catalog.empty Limits.default).registerAll friendDeclarations).get? "Post" =
      some friendPosts ∧
    "by_friend" ∈ friendPosts.sortedFilters ∧
    friendPosts.narrowBy "by_friend" ⟨.equals, .number (.integer 1), false⟩ friendPosts.all =
      .error (.unfilterable "by_id") ∧
    friendPosts.narrowBy "by_friend" ⟨.equals, .number (.integer 1), true⟩ friendPosts.all =
      .error (.unfilterable "by_id") := by
  have hlisted : filterName "friend" ∈ friendPosts.sortedFilters :=
    Surface.filterName_mem_sortedFilters.mpr (by decide)
  exact ⟨(Option.some_get _).symm, hlisted, rfl, rfl⟩

/-- Posts of friends can be filtered by the nickname and not by the friend; workers, whose types
know their key, can be filtered by the boss of their boss. -/
theorem Surface.narrowBy_listed_friends :
    ((Catalog.empty Limits.default).registerAll friendDeclarations).get? "Post" =
      some friendPosts ∧
    "by_friend" ∈ friendPosts.sortedFilters ∧
    "by_friend_nickname" ∈ friendPosts.sortedFilters ∧
    (∃ related, friendPosts.EndsUntyped (Catalog.Relates Limits.default friendDeclarations)
      "by_friend" related) ∧
    (¬∃ related, friendPosts.EndsUntyped (Catalog.Relates Limits.default friendDeclarations)
      "by_friend_nickname" related) ∧
    (∀ declaration ∈ workerDeclarations, declaration.KeyTyped) ∧
    "by_boss_boss" ∈ workersWithBosses.sortedFilters ∧
    ∃ result, workersWithBosses.narrowBy "by_boss_boss" ⟨.equals, .string "7", true⟩
      workersWithBosses.all = .ok result := by
  have hposts : ((Catalog.empty Limits.default).registerAll friendDeclarations).get? "Post" =
      some friendPosts := (Option.some_get _).symm
  have hworkers : ((Catalog.empty Limits.default).registerAll workerDeclarations).get? "Worker" =
      some workersWithBosses := (Option.some_get _).symm
  have hfriend : filterName "friend" ∈ friendPosts.sortedFilters :=
    Surface.filterName_mem_sortedFilters.mpr (by decide)
  have hnickname : filterName "friend_nickname" ∈ friendPosts.sortedFilters :=
    Surface.filterName_mem_sortedFilters.mpr (by decide)
  have hboss : filterName "boss_boss" ∈ workersWithBosses.sortedFilters :=
    Surface.filterName_mem_sortedFilters.mpr (by decide)
  have htyped : ∀ declaration ∈ workerDeclarations, declaration.KeyTyped := by decide
  refine ⟨hposts, hfriend, hnickname, ?_, ?_, htyped, hboss, ?_⟩
  · by_contra hnone
    obtain ⟨result, hresult⟩ := (narrowBy_listed hposts hfriend .null false).1.mpr hnone
    cases hresult
  · exact (narrowBy_listed hposts hnickname (.string "Al") true).1.mp ⟨_, rfl⟩
  · exact (narrowBy_listed hworkers hboss (.string "7") true).2.2 htyped

end Sift
