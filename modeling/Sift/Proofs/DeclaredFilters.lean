import Mathlib.Data.List.Nodup
import Sift.Proofs.Histories

/-!
# Filters as they are declared

A declaration gives names to its attributes, to its virtual columns and to what lies behind each of
its associations: the name of the association, and the names of the related filters behind it. All
of them are kept in one list, where a name that is given again replaces what it stood for. So every
name stands for what it was declared for exactly if all the names differ.

Names behind an association are joined by an underscore, which may occur in the parts as well: an
attribute `author_name` and the attribute `name` of an `author` have the same name.
-/

namespace Sift

/-- Of entries under different keys, each one is found. -/
theorem Keyed.lookup_ofList_of_nodup {α : Type} {entries : List (String × α)}
    (hnodup : (entries.map Prod.fst).Nodup) {key : String} {value : α}
    (h : (key, value) ∈ entries) : (Keyed.ofList entries).lookup key = some value := by
  obtain ⟨before, after, rfl⟩ := List.append_of_mem h
  rw [List.map_append, List.map_cons, List.nodup_middle, List.nodup_cons, ← List.map_append]
    at hnodup
  rw [lookup_ofList, List.reverse_append, List.reverse_cons, List.append_assoc]
  refine List.lookup_eq_some_iff.mpr ⟨after.reverse, before.reverse, rfl, fun entry hentry => ?_⟩
  have hother : entry.1 ∈ (before ++ after).map Prod.fst :=
    List.mem_map_of_mem (List.mem_append_right before (List.mem_reverse.mp hentry))
  simpa using fun heq : key = entry.1 => hnodup.1 (heq ▸ hother)

/-! ## The names that a declaration gives -/

/-- The association with a related model. -/
def AssociationDeclaration.associate (association : AssociationDeclaration) (related : Surface) :
    Association :=
  ⟨association.kind, association.name, association.foreignKey, related.table⟩

/-- The names that an association gives to filters. -/
def AssociationDeclaration.givenNames (lookUp : String → Option Surface)
    (association : AssociationDeclaration) : List String :=
  match lookUp association.model with
  | none => []
  | some related =>
    association.name ::
      (Keyed.keys related.filters).map fun attr => association.name ++ "_" ++ attr

namespace Declaration

/-- The names of the attributes and of the virtual columns. -/
def ownNames (declaration : Declaration) : List String :=
  declaration.attributes ++ declaration.virtualColumns.map Prod.fst

/-- All names that a declaration gives to filters, where `lookUp` knows the related surfaces. -/
def givenNames (declaration : Declaration) (lookUp : String → Option Surface) : List String :=
  declaration.ownNames ++
    declaration.associations.flatMap (AssociationDeclaration.givenNames lookUp)

end Declaration

/-- Every filter is what it was declared to be. -/
structure Surface.KeepsDeclared (surface : Surface) (declaration : Declaration)
    (lookUp : String → Option Surface) : Prop where
  attributes : ∀ attr ∈ declaration.attributes, surface.filter? (filterName attr) =
    some (.own declaration.columnTypes (.column attr))
  virtualColumns : ∀ column ∈ declaration.virtualColumns, surface.filter? (filterName column.1) =
    some (.own declaration.columnTypes (.expression column.2))
  keys : ∀ association ∈ declaration.associations, ∀ related,
    lookUp association.model = some related → surface.filter? (filterName association.name) =
      some (.through ((association.associate related).join declaration.table) related.table
        (.own related.types (.column related.table.primaryKey)))
  behind : ∀ association ∈ declaration.associations, ∀ related,
    lookUp association.model = some related → ∀ attr next,
    related.filter? (filterName attr) = some next →
      surface.filter? (filterName (association.name ++ "_" ++ attr)) =
        some (.through ((association.associate related).join declaration.table) related.table next)

/-- A surface that a declaration was compiled to. -/
def Surface.IsCompiled (surface : Surface) : Prop :=
  ∃ declaration lookUp defaults, Declaration.compile declaration lookUp defaults = .ok surface

/-- A compiled surface has one filter for each name. -/
theorem Surface.IsCompiled.nodup_keys {surface : Surface} (h : surface.IsCompiled) :
    (Keyed.keys surface.filters).Nodup := by
  obtain ⟨declaration, lookUp, defaults, hcompile⟩ := h
  obtain ⟨-, -, -, -, -, linked, -, rfl⟩ := Declaration.compile_eq_ok.mp hcompile
  exact Keyed.nodup_keys_ofList _

/-- The names that an association gives are those of its filters. -/
theorem AssociationDeclaration.givenNames_eq {lookUp : String → Option Surface}
    {association : AssociationDeclaration} {related : Surface}
    (h : lookUp association.model = some related) (owner : Table) :
    association.givenNames lookUp =
      ((association.associate related).filters owner related).map Prod.fst := by
  rw [Association.map_fst_filters, givenNames, h]
  rfl

/-- One association gives no name twice, as all its names but the first are longer than its own. -/
theorem AssociationDeclaration.nodup_givenNames {lookUp : String → Option Surface}
    (hrelated : ∀ model related, lookUp model = some related → related.IsCompiled)
    (association : AssociationDeclaration) : (association.givenNames lookUp).Nodup := by
  unfold givenNames
  cases hsome : lookUp association.model with
  | none => exact List.nodup_nil
  | some related =>
    refine List.nodup_cons.mpr ⟨?_, ?_⟩
    · intro hmem
      obtain ⟨attr, -, heq⟩ := List.mem_map.mp hmem
      have hlength := congrArg String.length heq
      simp only [String.length_append] at hlength
      have hunderscore : "_".length = 1 := rfl
      omega
    · refine (hrelated _ related hsome).nodup_keys.map fun attr other heq => ?_
      exact String.append_right_inj _ |>.mp heq

namespace Declaration

variable {declaration : Declaration} {lookUp : String → Option Surface} {defaults : Limits}
  {linked : List (Association × Surface)} {surface : Surface}

/-- The filters that lead through associations have the names that those give. -/
theorem flatMap_givenNames
    (hlinked : declaration.associations.mapM (declaration.link lookUp) = .ok linked) :
    declaration.associations.flatMap (AssociationDeclaration.givenNames lookUp) =
      (linked.flatMap fun link => link.1.filters declaration.table link.2).map Prod.fst := by
  rw [List.map_flatMap]
  refine flatMap_eq_of_forall₂ (mapM_eq_ok.mp hlinked) fun association link hlink => ?_
  obtain ⟨hrelated, hassociation⟩ := link_eq_ok hlink
  rw [AssociationDeclaration.givenNames_eq hrelated declaration.table, hassociation]
  rfl

/-- The entries from which the filters are written have the given names. -/
theorem givenNames_eq
    (hlinked : declaration.associations.mapM (declaration.link lookUp) = .ok linked) :
    declaration.givenNames lookUp = (declaration.ownFilters ++
      linked.flatMap fun link => link.1.filters declaration.table link.2).map Prod.fst := by
  have hown : declaration.ownFilters.map Prod.fst = declaration.ownNames := by
    simp [ownFilters, ownNames, Function.comp_def]
  rw [List.map_append, hown, ← flatMap_givenNames hlinked, givenNames]

/-- What a declared association is linked to, where its model is known. -/
theorem associate_mem_linked
    (hlinked : declaration.associations.mapM (declaration.link lookUp) = .ok linked)
    {association : AssociationDeclaration} (hassociation : association ∈ declaration.associations)
    {related : Surface} (hrelated : lookUp association.model = some related) :
    (association.associate related, related) ∈ linked := by
  obtain ⟨⟨made, found⟩, hmem, hlink⟩ := exists_result_of_mapM hlinked hassociation
  obtain ⟨hsome, hmade⟩ := link_eq_ok hlink
  rw [hrelated] at hsome
  obtain rfl : related = found := Option.some.inj hsome
  obtain rfl : made = association.associate related := hmade
  exact hmem

/-- Where all given names differ, every filter is what it was declared to be. -/
theorem keepsDeclared_of_nodup
    (hlinked : declaration.associations.mapM (declaration.link lookUp) = .ok linked)
    (hnodup : (declaration.givenNames lookUp).Nodup) :
    (declaration.surface defaults linked).KeepsDeclared declaration lookUp := by
  rw [givenNames_eq hlinked] at hnodup
  have hfilter : ∀ entry ∈ declaration.ownFilters ++
        linked.flatMap (fun link => link.1.filters declaration.table link.2),
      (declaration.surface defaults linked).filter? (filterName entry.1) = some entry.2 := by
    intro entry hentry
    rw [Surface.filter?_filterName]
    exact Keyed.lookup_ofList_of_nodup hnodup hentry
  have hgiven : ∀ association ∈ declaration.associations, ∀ related,
      lookUp association.model = some related →
      ∀ entry ∈ (association.associate related).filters declaration.table related,
        (declaration.surface defaults linked).filter? (filterName entry.1) = some entry.2 := by
    intro association hassociation related hrelated entry hentry
    have hmem := associate_mem_linked hlinked hassociation hrelated
    exact hfilter entry (List.mem_append_right _ (List.mem_flatMap.mpr ⟨_, hmem, hentry⟩))
  refine ⟨?_, ?_, ?_, ?_⟩
  · -- attributes
    intro attr hattr
    refine hfilter (attr, _) (List.mem_append_left _ ?_)
    exact List.mem_append_left _ (List.mem_map_of_mem hattr)
  · -- virtual columns
    intro column hcolumn
    refine hfilter (column.1, _) (List.mem_append_left _ ?_)
    exact List.mem_append_right _ (List.mem_map_of_mem hcolumn)
  · -- related primary keys
    intro association hassociation related hrelated
    exact hgiven association hassociation related hrelated (association.name, _) List.mem_cons_self
  · -- related filters
    intro association hassociation related hrelated attr next hnext
    rw [Surface.filter?_filterName] at hnext
    refine hgiven association hassociation related hrelated
      (association.name ++ "_" ++ attr, _) (List.mem_cons_of_mem _ ?_)
    exact List.mem_map_of_mem (Keyed.mem_of_lookup hnext)

/-! ## Names that differ -/

/-- All given names differ if no two of the three kinds of names meet, and no two associations. -/
theorem nodup_givenNames (hrelated : ∀ model related, lookUp model = some related →
      related.IsCompiled)
    (hattributes : declaration.attributes.Nodup)
    (hcolumns : (declaration.virtualColumns.map Prod.fst).Nodup)
    (hassociations : (declaration.associations.map AssociationDeclaration.name).Nodup)
    (hown : ∀ column ∈ declaration.virtualColumns, column.1 ∉ declaration.attributes)
    (hgiven : ∀ association ∈ declaration.associations,
      ∀ name ∈ association.givenNames lookUp, name ∉ declaration.ownNames)
    (hbetween : ∀ first ∈ declaration.associations, ∀ second ∈ declaration.associations,
      first.name ≠ second.name → ∀ name ∈ first.givenNames lookUp,
        name ∉ second.givenNames lookUp) :
    (declaration.givenNames lookUp).Nodup := by
  have hownNames : declaration.ownNames.Nodup := by
    refine List.nodup_append.mpr ⟨hattributes, hcolumns, ?_⟩
    rintro attr hattr name hname rfl
    obtain ⟨column, hcolumn, rfl⟩ := List.mem_map.mp hname
    exact hown column hcolumn hattr
  have hbehind : (declaration.associations.flatMap
      (AssociationDeclaration.givenNames lookUp)).Nodup := by
    refine List.nodup_flatMap.mpr ⟨fun association _ => association.nodup_givenNames hrelated, ?_⟩
    refine (List.pairwise_map.mp hassociations).imp_of_mem fun hfirst hsecond hne => ?_
    exact fun name hname hother => hbetween _ hfirst _ hsecond hne name hname hother
  refine List.nodup_append.mpr ⟨hownNames, hbehind, ?_⟩
  rintro name hname other hother rfl
  obtain ⟨association, hassociation, hmem⟩ := List.mem_flatMap.mp hother
  exact hgiven association hassociation name hmem hname

/-- Own filters apply to a target of the model's own table. -/
theorem own_of_keepsDeclared (h : surface.KeepsDeclared declaration lookUp) {name : String}
    (hname : name ∈ declaration.ownNames) : ∃ target,
      surface.filter? (filterName name) = some (.own declaration.columnTypes target) := by
  rcases List.mem_append.mp hname with hattr | hcolumn
  · exact ⟨_, h.attributes name hattr⟩
  · obtain ⟨column, hmem, rfl⟩ := List.mem_map.mp hcolumn
    exact ⟨_, h.virtualColumns column hmem⟩

/-- Given filters lead through their association. -/
theorem through_of_keepsDeclared (h : surface.KeepsDeclared declaration lookUp)
    {association : AssociationDeclaration} (hassociation : association ∈ declaration.associations)
    {name : String} (hname : name ∈ association.givenNames lookUp) : ∃ related next,
      surface.filter? (filterName name) = some
        (.through ((association.associate related).join declaration.table) related.table next) := by
  unfold AssociationDeclaration.givenNames at hname
  cases hsome : lookUp association.model with
  | none =>
    rw [hsome] at hname
    exact absurd hname List.not_mem_nil
  | some related =>
    rw [hsome] at hname
    rcases List.mem_cons.mp hname with rfl | hnested
    · exact ⟨related, _, h.keys association hassociation related hsome⟩
    · obtain ⟨attr, hattr, rfl⟩ := List.mem_map.mp hnested
      obtain ⟨next, hnext⟩ := Keyed.exists_lookup_of_mem_keys hattr
      rw [← Surface.filter?_filterName] at hnext
      exact ⟨related, next, h.behind association hassociation related hsome attr next hnext⟩

/-- Where every filter is what it was declared to be no name is given twice: filters of two kinds,
or along two associations, are not the same. -/
theorem nodup_of_keepsDeclared (hrelated : ∀ model related, lookUp model = some related →
      related.IsCompiled)
    (hattributes : declaration.attributes.Nodup)
    (hcolumns : (declaration.virtualColumns.map Prod.fst).Nodup)
    (hassociations : (declaration.associations.map AssociationDeclaration.name).Nodup)
    (h : surface.KeepsDeclared declaration lookUp) : (declaration.givenNames lookUp).Nodup := by
  refine nodup_givenNames hrelated hattributes hcolumns hassociations ?_ ?_ ?_
  · intro column hcolumn hattr
    have hsame := (h.attributes _ hattr).symm.trans (h.virtualColumns column hcolumn)
    cases hsame
  · intro association hassociation name hname hown
    obtain ⟨target, hown⟩ := own_of_keepsDeclared h hown
    obtain ⟨related, next, hthrough⟩ := through_of_keepsDeclared h hassociation hname
    rw [hown] at hthrough
    cases hthrough
  · intro first hfirst second hsecond hne name hname hother
    obtain ⟨related, next, hthrough⟩ := through_of_keepsDeclared h hfirst hname
    obtain ⟨related', next', hthrough'⟩ := through_of_keepsDeclared h hsecond hother
    rw [hthrough] at hthrough'
    injection hthrough' with hfilter
    injection hfilter with hjoin
    exact hne (congrArg Join.qualifier hjoin)

/-- No association's name with an underscore begins another name, and own names differ. Then no
related filter, whatever its name, can take the name of another filter. -/
structure PrefixFree (declaration : Declaration) : Prop where
  virtualColumns : ∀ column ∈ declaration.virtualColumns, column.1 ∉ declaration.attributes
  own : ∀ association ∈ declaration.associations, ∀ name ∈ declaration.ownNames,
    name ≠ association.name ∧ ¬(association.name ++ "_").toList <+: name.toList
  associations : ∀ first ∈ declaration.associations, ∀ second ∈ declaration.associations,
    ¬(first.name ++ "_").toList <+: second.name.toList

/-- What an association gives is its name or begins with its name and an underscore. -/
theorem mem_givenNames {association : AssociationDeclaration} {name : String}
    (h : name ∈ association.givenNames lookUp) :
    name = association.name ∨ (association.name ++ "_").toList <+: name.toList := by
  unfold AssociationDeclaration.givenNames at h
  cases hsome : lookUp association.model with
  | none =>
    rw [hsome] at h
    exact absurd h List.not_mem_nil
  | some related =>
    rw [hsome] at h
    rcases List.mem_cons.mp h with heq | hnested
    · exact Or.inl heq
    · obtain ⟨attr, -, rfl⟩ := List.mem_map.mp hnested
      have hsplit : (association.name ++ "_" ++ attr).toList =
          (association.name ++ "_").toList ++ attr.toList := String.toList_append
      rw [hsplit]
      exact Or.inr (List.prefix_append _ _)

/-- Of two names that begin the same text with an underscore behind them, one begins the other. -/
theorem eq_or_prefix_of_prefix {first second : String} {text : List Char}
    (h : (first ++ "_").toList <+: text) (hother : (second ++ "_").toList <+: text) :
    first = second ∨ (first ++ "_").toList <+: second.toList ∨
      (second ++ "_").toList <+: first.toList := by
  have hconcat : ∀ name : String, (name ++ "_").toList = name.toList ++ ['_'] :=
    fun name => String.toList_append
  rw [hconcat] at h hother ⊢
  rw [hconcat]
  rcases List.prefix_or_prefix_of_prefix h hother with hprefix | hprefix
  · rcases List.prefix_concat_iff.mp hprefix with heq | hshort
    · exact Or.inl (String.toList_inj.mp (List.append_cancel_right heq))
    · exact Or.inr (Or.inl hshort)
  · rcases List.prefix_concat_iff.mp hprefix with heq | hshort
    · exact Or.inl (String.toList_inj.mp (List.append_cancel_right heq).symm)
    · exact Or.inr (Or.inr hshort)

theorem nodup_of_prefixFree (hrelated : ∀ model related, lookUp model = some related →
      related.IsCompiled)
    (hattributes : declaration.attributes.Nodup)
    (hcolumns : (declaration.virtualColumns.map Prod.fst).Nodup)
    (hassociations : (declaration.associations.map AssociationDeclaration.name).Nodup)
    (h : declaration.PrefixFree) : (declaration.givenNames lookUp).Nodup := by
  refine nodup_givenNames hrelated hattributes hcolumns hassociations h.virtualColumns ?_ ?_
  · intro association hassociation name hname hown
    obtain ⟨hne, hprefix⟩ := h.own association hassociation name hown
    exact (mem_givenNames hname).elim hne hprefix
  · intro first hfirst second hsecond hne name hname hother
    rcases mem_givenNames hname with rfl | hname
    · rcases mem_givenNames hother with heq | hother
      · exact hne heq
      · exact h.associations second hsecond first hfirst hother
    · rcases mem_givenNames hother with rfl | hother
      · exact h.associations first hfirst second hsecond hname
      · rcases eq_or_prefix_of_prefix hname hother with heq | hprefix | hprefix
        · exact hne heq
        · exact h.associations first hfirst second hsecond hprefix
        · exact h.associations second hsecond first hfirst hprefix

/-- Every filter of a compiled declaration is what it was declared to be exactly if all names that
the declaration gives differ. It is enough that no association's name begins another name. -/
theorem keepsDeclared_iff (hcompile : declaration.compile lookUp defaults = .ok surface)
    (hrelated : ∀ model related, lookUp model = some related → related.IsCompiled)
    (hattributes : declaration.attributes.Nodup)
    (hcolumns : (declaration.virtualColumns.map Prod.fst).Nodup)
    (hassociations : (declaration.associations.map AssociationDeclaration.name).Nodup) :
    (surface.KeepsDeclared declaration lookUp ↔ (declaration.givenNames lookUp).Nodup) ∧
    (declaration.PrefixFree → (declaration.givenNames lookUp).Nodup) := by
  obtain ⟨-, -, -, -, -, linked, hlinked, rfl⟩ := compile_eq_ok.mp hcompile
  refine ⟨⟨?_, keepsDeclared_of_nodup hlinked⟩, ?_⟩
  · exact nodup_of_keepsDeclared hrelated hattributes hcolumns hassociations
  · exact nodup_of_prefixFree hrelated hattributes hcolumns hassociations

end Declaration

/-! ## An attribute that repeats one of an association -/

/-- Singers with a name. -/
def singerDeclaration : Declaration :=
  .basic (.declare "Singer" "singers" "id" [("name", .string)]) ["name"] []

/-- The surface of singers. -/
def singers : Surface :=
  singerDeclaration.surface Limits.default []

/-- Knows the singers. -/
def singersAlone (model : String) : Option Surface :=
  if model = "Singer" then some singers else none

/-- Songs that can be filtered by one of their columns and by their singer. -/
def songDeclaration (attr : String) : Declaration :=
  .basic (.declare "Song" "songs" "id" [("singer_id", .integer), (attr, .string)]) [attr]
    [⟨.belongsTo, "singer", "singer_id", "Singer"⟩]

/-- The surface of songs. -/
def songs (attr : String) : Surface :=
  (songDeclaration attr).surface Limits.default
    [(⟨.belongsTo, "singer", "singer_id", singers.table⟩, singers)]

theorem isCompiled_singers : singers.IsCompiled :=
  ⟨singerDeclaration, fun _ => none, Limits.default, rfl⟩

theorem isCompiled_of_singersAlone {model : String} {related : Surface}
    (h : singersAlone model = some related) : related.IsCompiled := by
  unfold singersAlone at h
  split at h
  · cases h
    exact isCompiled_singers
  · cases h

/-- A title does not collide with the name of the singer. -/
theorem Declaration.keepsDeclared_iff_singer :
    (songDeclaration "title").compile singersAlone Limits.default = .ok (songs "title") ∧
    (songDeclaration "title").PrefixFree ∧
    (songs "title").KeepsDeclared (songDeclaration "title") singersAlone ∧
    (songDeclaration "singer_name").compile singersAlone Limits.default =
      .ok (songs "singer_name") ∧
    ¬(songs "singer_name").KeepsDeclared (songDeclaration "singer_name") singersAlone := by
  have htitle : (songDeclaration "title").compile singersAlone Limits.default =
      .ok (songs "title") := rfl
  have hname : (songDeclaration "singer_name").compile singersAlone Limits.default =
      .ok (songs "singer_name") := rfl
  have hprefix : (songDeclaration "title").PrefixFree := ⟨by decide, by decide, by decide⟩
  obtain ⟨hkeeps, hfree⟩ := keepsDeclared_iff htitle (fun _ _ => isCompiled_of_singersAlone)
    (List.nodup_singleton _) List.nodup_nil (List.nodup_singleton _)
  obtain ⟨hreplaces, -⟩ := keepsDeclared_iff hname (fun _ _ => isCompiled_of_singersAlone)
    (List.nodup_singleton _) List.nodup_nil (List.nodup_singleton _)
  refine ⟨htitle, hprefix, hkeeps.mpr (hfree hprefix), hname, fun h => ?_⟩
  have hdistinct := hreplaces.mp h
  revert hdistinct
  decide

/-- The filter of the attribute is replaced by that of the singer's name. -/
theorem Declaration.replaces_singer_name :
    (songDeclaration "singer_name").compile singersAlone Limits.default =
      .ok (songs "singer_name") ∧
    singersAlone "Singer" = some singers ∧ singers.IsCompiled ∧
    (songDeclaration "singer_name").attributes = ["singer_name"] ∧
    (songs "singer_name").filter? "by_singer_name" =
      some (.through (Association.join ⟨.belongsTo, "singer", "singer_id", singers.table⟩
          (songs "singer_name").table) singers.table (.own singers.types (.column "name"))) ∧
    ¬(songs "singer_name").KeepsDeclared (songDeclaration "singer_name") singersAlone := by
  have hfilter : (songs "singer_name").filter? "by_singer_name" =
      some (.through (Association.join ⟨.belongsTo, "singer", "singer_id", singers.table⟩
          (songs "singer_name").table) singers.table (.own singers.types (.column "name"))) := rfl
  refine ⟨rfl, rfl, isCompiled_singers, rfl, hfilter, fun h => ?_⟩
  have hkept := h.attributes "singer_name" List.mem_cons_self
  rw [show filterName "singer_name" = "by_singer_name" from rfl, hfilter] at hkept
  cases hkept

end Sift
