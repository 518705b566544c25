import Sift.Proofs.InnerScopes
import Sift.Proofs.Registrations

/-!
# Ways along associations

A filter that follows associations goes a way to each table that it passes. Its scope joins these
tables, each under the names of the associations on the way to it with underscores between, and
compares it with the table that the way reaches before.

That is so if no qualifier on the way is the name of the table where the way starts. Qualifiers and
tables share their names, so an association that is called like its owner's table hides it: the
filter is not *clear*, and its scope gives a qualifier twice.
-/

namespace Sift

/-- The way to a table along associations, each of which is given by the join that it makes from its
owner's table. -/
structure Way where
  /-- The joins of the tables that are passed. -/
  passed : List Join
  /-- The join of the table that is reached. -/
  last : Join
deriving DecidableEq

/-- The qualifiers of joins with underscores between. -/
def spelled : List Join → String
  | [] => ""
  | [join] => join.qualifier
  | join :: rest => join.nested (spelled rest)

namespace Way

/-- All joins on a way. -/
def steps (way : Way) : List Join :=
  way.passed ++ [way.last]

/-- The qualifier of the table that a way reaches. -/
def qualifier (way : Way) : String :=
  spelled way.steps

/-- The qualifier of the table that a way reaches before its last one, in a scope of an owner. -/
def origin (owner : String) (way : Way) : String :=
  if way.passed = [] then owner else spelled way.passed

/-- How a scope of an owner joins the table that a way reaches. -/
def join (owner : String) (way : Way) : Join where
  table := way.last.table
  qualifier := way.qualifier
  left := ⟨way.qualifier, way.last.left.name⟩
  right := ⟨way.origin owner, way.last.right.name⟩

/-- The way that starts with a join and goes on. -/
def behind (join : Join) (way : Way) : Way :=
  ⟨join :: way.passed, way.last⟩

theorem steps_ne_nil (way : Way) : way.steps ≠ [] :=
  List.append_ne_nil_of_right_ne_nil _ (List.cons_ne_nil _ _)

end Way

theorem spelled_cons (join : Join) {rest : List Join} (h : rest ≠ []) :
    spelled (join :: rest) = join.nested (spelled rest) := by
  cases rest with
  | nil => exact absurd rfl h
  | cons _ _ => rfl

/-- Two ways over the same tables are spelled alike only if their last names are. -/
theorem spelled_concat_inj {passed : List Join} {last other : Join}
    (h : spelled (passed ++ [last]) = spelled (passed ++ [other])) :
    last.qualifier = other.qualifier := by
  induction passed with
  | nil => exact h
  | cons join rest ih =>
    have hne : ∀ last : Join, rest ++ [last] ≠ [] := fun last =>
      List.append_ne_nil_of_right_ne_nil _ (List.cons_ne_nil _ _)
    rw [List.cons_append, List.cons_append, spelled_cons join (hne last),
      spelled_cons join (hne other)] at h
    exact ih (join.nested_injective h)

theorem Way.qualifier_behind (join : Join) (way : Way) :
    (way.behind join).qualifier = join.nested way.qualifier :=
  spelled_cons join way.steps_ne_nil

namespace Filter

/-- The ways that a filter goes, one to each table that it passes. -/
def ways : Filter → List Way
  | .own _ _ => []
  | .through join _ next => ⟨[], join⟩ :: next.ways.map (Way.behind join)

/-- A filter is clear if no way that it goes, or that it goes on from a table that it passes, has
the name of the table where it starts for its qualifier. -/
def Clear : Table → Filter → Prop
  | _, .own _ _ => True
  | owner, .through join related next =>
    owner.name ∉ (Filter.through join related next).ways.map Way.qualifier ∧ next.Clear related

instance : (owner : Table) → (filter : Filter) → Decidable (filter.Clear owner)
  | _, .own _ _ => .isTrue trivial
  | owner, .through join related next =>
    have := instDecidableClear related next
    inferInstanceAs (Decidable
      (owner.name ∉ (Filter.through join related next).ways.map Way.qualifier ∧
        next.Clear related))

theorem Clear.notMem {owner : Table} {filter : Filter} (h : filter.Clear owner) :
    owner.name ∉ filter.ways.map Way.qualifier := by
  cases filter with
  | own types target => exact List.not_mem_nil
  | through join related next => exact h.1

/-- Every way but the shortest goes on from another one. -/
theorem exists_way_passed {filter : Filter} {way : Way} (h : way ∈ filter.ways)
    (hpassed : way.passed ≠ []) : ∃ earlier ∈ filter.ways, earlier.steps = way.passed := by
  induction filter generalizing way with
  | own types target => exact absurd h List.not_mem_nil
  | through join related next ih =>
    rcases List.mem_cons.mp h with rfl | h
    · exact absurd rfl hpassed
    · obtain ⟨rest, hrest, rfl⟩ := List.mem_map.mp h
      by_cases hnil : rest.passed = []
      · refine ⟨⟨[], join⟩, List.mem_cons_self .., ?_⟩
        rw [Way.behind, hnil]
        rfl
      · obtain ⟨earlier, hearlier, hsteps⟩ := ih hrest hnil
        refine ⟨earlier.behind join, List.mem_cons_of_mem _ (List.mem_map_of_mem hearlier), ?_⟩
        exact congrArg (List.cons join) hsteps

/-- The ways of one filter become longer and longer, so they have different qualifiers. -/
theorem nodup_qualifiers_ways (filter : Filter) : (filter.ways.map Way.qualifier).Nodup := by
  induction filter with
  | own types target => exact List.nodup_nil
  | through join related next ih =>
    have hnested : (next.ways.map (Way.behind join)).map Way.qualifier =
        (next.ways.map Way.qualifier).map join.nested := by
      rw [List.map_map, List.map_map]
      exact List.map_congr_left fun way _ => way.qualifier_behind join
    rw [ways, List.map_cons, hnested]
    refine List.nodup_cons.mpr ⟨fun hmem => ?_, ih.map join.nested_injective⟩
    obtain ⟨qualifier, -, heq⟩ := List.mem_map.mp hmem
    exact join.nested_ne_qualifier qualifier heq

end Filter

/-! ## The joins of a filter -/

/-- Behind a join, a scope that joins its tables by the ways of a clear filter joins them by the
ways that start with the join. -/
theorem Way.join_behind {join : Join} {owner : String} {related : Table} {next : Filter}
    (hclear : next.Clear related) {matched : Scope} (htable : matched.table = related.name)
    (hjoins : matched.joins = next.ways.map (Way.join related.name)) {way : Way}
    (h : way ∈ next.ways) :
    (way.join related.name).renamed (Scope.renamesBehind join matched) =
      (way.behind join).join owner := by
  have hqualifier : ∀ way ∈ next.ways,
      (Scope.renamesBehind join matched).apply way.qualifier = join.nested way.qualifier := by
    intro way hway
    have hmem : way.qualifier ∈ matched.joins.map Join.qualifier := by
      rw [hjoins, List.map_map]
      exact List.mem_map.mpr ⟨way, hway, rfl⟩
    refine Scope.apply_renamesBehind_nested join hmem fun heq => hclear.notMem ?_
    rw [← htable, ← heq]
    exact List.mem_map_of_mem hway
  have horigin : (Scope.renamesBehind join matched).apply (way.origin related.name) =
      (way.behind join).origin owner := by
    have hbehind : (way.behind join).origin owner = spelled (join :: way.passed) :=
      if_neg (List.cons_ne_nil _ _)
    rw [hbehind]
    by_cases hnil : way.passed = []
    · rw [origin, if_pos hnil, hnil, ← htable, Scope.apply_renamesBehind_table]
      rfl
    · -- the table before the last one is at the end of another way
      obtain ⟨earlier, hearlier, hsteps⟩ := Filter.exists_way_passed h hnil
      rw [origin, if_neg hnil, spelled_cons join hnil, ← hsteps]
      exact hqualifier earlier hearlier
  rw [Join.renamed, Way.join, Way.join, Column.renamed, Column.renamed, horigin,
    hqualifier way h, Way.qualifier_behind]
  rfl

/-- If the next filter joins its tables by its ways, so does the filter that goes to it. -/
theorem Scope.joins_conjoinVia_ways {owner : Table} {association : Association} {next : Filter}
    (hclear : next.Clear association.related) {matched : Scope}
    (htable : matched.table = association.related.name)
    (hjoins : matched.joins = next.ways.map (Way.join association.related.name)) :
    ((Scope.all owner).conjoinVia (association.join owner) matched).joins =
      (Filter.through (association.join owner) association.related next).ways.map
        (Way.join owner.name) := by
  set join := association.join owner
  have hways : join :: matched.joins.map (Join.renamed (renamesBehind join matched)) =
      (Filter.through join association.related next).ways.map (Way.join owner.name) := by
    rw [Filter.ways, List.map_cons, hjoins, List.map_map, List.map_map]
    exact congrArg (List.cons join)
      (List.map_congr_left fun way hway => Way.join_behind hclear htable hjoins hway)
  show addJoins [] _ = _
  rw [hways, addJoins_eq_append, List.nil_append]
  -- ways have different qualifiers, so they give different joins
  rw [List.nil_append]
  refine List.Nodup.of_map Join.qualifier ?_
  rw [List.map_map]
  exact Filter.nodup_qualifiers_ways _

namespace Filter

/-- A clear filter joins the tables that it passes, in order and each by the way to it. -/
theorem Follows.joins_narrow {owner : Table} {filter : Filter} (h : filter.Follows owner)
    (hclear : filter.Clear owner) {operator : Operator} {param : Json} {result : Scope}
    (hnarrow : filter.narrow ⟨operator, param, false⟩ (Scope.all owner) = .ok result) :
    result.joins = filter.ways.map (Way.join owner.name) := by
  induction h generalizing result with
  | own types target =>
    obtain ⟨conditions, -, hnarrow⟩ := bind_eq_ok.mp hnarrow
    cases hnarrow
    rfl
  | through hnext ih =>
    obtain ⟨matched, hmatched, hnarrow⟩ := bind_eq_ok.mp hnarrow
    cases hnarrow
    have hextends := extends_of_narrow hmatched
    exact Scope.joins_conjoinVia_ways hclear.2 hextends.table_eq (ih hclear.2 hmatched)

end Filter

/-! ## Filters that are not clear -/

/-- Joins that differ still differ under new qualifiers, if different qualifiers get different new
ones. -/
theorem Join.eq_of_renamed_eq {renames : Renames} {names : List String}
    (hinj : ∀ first ∈ names, ∀ second ∈ names,
      renames.apply first = renames.apply second → first = second)
    {first second : Join} (h : first.renamed renames = second.renamed renames)
    (hfirst : [first.qualifier, first.left.qualifier, first.right.qualifier] ⊆ names)
    (hsecond : [second.qualifier, second.left.qualifier, second.right.qualifier] ⊆ names) :
    first = second := by
  obtain ⟨table, qualifier, ⟨leftQualifier, leftName⟩, ⟨rightQualifier, rightName⟩⟩ := first
  obtain ⟨otherTable, otherQualifier, ⟨otherLeft, otherLeftName⟩, ⟨otherRight, otherRightName⟩⟩ :=
    second
  simp only [List.cons_subset] at hfirst hsecond
  obtain ⟨hqualifier, hleft, hright, -⟩ := hfirst
  obtain ⟨hotherQualifier, hotherLeft, hotherRight, -⟩ := hsecond
  simp only [renamed, Column.renamed, mk.injEq, Column.mk.injEq] at h ⊢
  obtain ⟨htable, hq, ⟨hl, hlname⟩, hr, hrname⟩ := h
  exact ⟨htable, hinj _ hqualifier _ hotherQualifier hq, ⟨hinj _ hleft _ hotherLeft hl, hlname⟩,
    hinj _ hright _ hotherRight hr, hrname⟩

/-- A scope that gives a qualifier twice still does so behind a join. -/
theorem Scope.names_nodup_of_conjoinVia {owner : Table} {association : Association}
    {matched : Scope} (hmatched : matched.ScopedOver association.related)
    (h : ((Scope.all owner).conjoinVia (association.join owner) matched).names.Nodup) :
    matched.names.Nodup := by
  set join := association.join owner
  set renames := renamesBehind join matched
  obtain ⟨howner, hqualifiers⟩ := List.nodup_cons.mp h
  have hinj := List.inj_on_of_nodup_map hqualifiers
  have hjoin : join ∈ ((Scope.all owner).conjoinVia join matched).joins :=
    mem_joins_conjoinVia.mpr (Or.inl rfl)
  have hbehind : ∀ nested ∈ matched.joins,
      nested.renamed renames ∈ ((Scope.all owner).conjoinVia join matched).joins :=
    fun nested hnested => mem_joins_conjoinVia.mpr (Or.inr ⟨nested, hnested, rfl⟩)
  have hgiven : ∀ qualifier ∈ matched.names,
      renames.apply qualifier ∈
        ((Scope.all owner).conjoinVia join matched).joins.map Join.qualifier := by
    intro qualifier hqualifier
    rcases List.mem_cons.mp hqualifier with rfl | hqualifier
    · rw [apply_renamesBehind_table]
      exact List.mem_map_of_mem hjoin
    · obtain ⟨nested, hnested, rfl⟩ := List.mem_map.mp hqualifier
      exact List.mem_map.mpr ⟨_, hbehind nested hnested, rfl⟩
  refine List.nodup_cons.mpr ⟨fun htable => ?_, ?_⟩
  · -- a joined table under the name of the related one would be the related one itself, joined to
    -- the owner, though what it is joined to comes behind the join
    obtain ⟨nested, hnested, heq⟩ := List.mem_map.mp htable
    have hsame : nested.renamed renames = join := by
      refine hinj (hbehind nested hnested) hjoin ?_
      show renames.apply nested.qualifier = join.qualifier
      rw [heq, apply_renamesBehind_table]
    have hright : renames.apply nested.right.qualifier = owner.name :=
      congrArg (fun join => join.right.qualifier) hsame
    have hmem := hgiven _ (hmatched.wellScoped.joins.right_mem hnested)
    rw [hright] at hmem
    exact howner hmem
  · have hnamed : ∀ nested ∈ matched.joins,
        [nested.qualifier, nested.left.qualifier, nested.right.qualifier] ⊆ matched.names := by
      intro nested hnested
      have hmem : nested.qualifier ∈ matched.names :=
        List.mem_cons_of_mem _ (List.mem_map_of_mem hnested)
      simp only [List.cons_subset, List.nil_subset, and_true]
      refine ⟨hmem, ?_, hmatched.wellScoped.joins.right_mem hnested⟩
      rwa [hmatched.wellScoped.joins.left_eq hnested]
    refine hmatched.nodup.map_on fun first hfirst second hsecond heq => ?_
    have hsame : first.renamed renames = second.renamed renames :=
      hinj (hbehind first hfirst) (hbehind second hsecond) (congrArg renames.apply heq)
    exact Join.eq_of_renamed_eq (injOn_renamesBehind join) hsame (hnamed first hfirst)
      (hnamed second hsecond)

theorem Scope.names_of_ways {owner : Table} {filter : Filter} {scope : Scope}
    (htable : scope.table = owner.name)
    (hjoins : scope.joins = filter.ways.map (Way.join owner.name)) :
    scope.names = owner.name :: filter.ways.map Way.qualifier := by
  rw [names, htable, hjoins, List.map_map]
  rfl

/-- What a filter selects without inversion has different qualifiers if and only if the filter is
clear. -/
theorem Filter.Follows.names_nodup_iff {owner : Table} {filter : Filter}
    (h : filter.Follows owner) {operator : Operator} {param : Json} {result : Scope}
    (hnarrow : filter.narrow ⟨operator, param, false⟩ (Scope.all owner) = .ok result) :
    result.names.Nodup ↔ filter.Clear owner := by
  constructor
  · intro hnodup
    induction h generalizing result with
    | own types target => trivial
    | through hnext ih =>
      have htable := (extends_of_narrow hnarrow).table_eq
      obtain ⟨matched, hmatched, hnarrow⟩ := bind_eq_ok.mp hnarrow
      cases hnarrow
      have hclear := ih hmatched
        (Scope.names_nodup_of_conjoinVia (hnext.scopedOver hmatched) hnodup)
      have hrelated := (extends_of_narrow hmatched).table_eq
      rw [Scope.names_of_ways htable (Scope.joins_conjoinVia_ways hclear hrelated
        (hnext.joins_narrow hclear hmatched))] at hnodup
      exact ⟨(List.nodup_cons.mp hnodup).1, hclear⟩
  · intro hclear
    rw [Scope.names_of_ways (extends_of_narrow hnarrow).table_eq (h.joins_narrow hclear hnarrow)]
    exact List.nodup_cons.mpr ⟨hclear.notMem, filter.nodup_qualifiers_ways⟩

/-! ## Ways of several filters -/

namespace Filter

/-- The last join of a way is as the association declares it: from the table that is passed last. -/
theorem Follows.last_declared {owner : Table} {filter : Filter} (h : filter.Follows owner) :
    ∀ way ∈ filter.ways, way.last.left.qualifier = way.last.qualifier ∧
      way.last.right.qualifier = way.passed.foldl (fun _ join => join.table) owner.name := by
  induction h with
  | own types target => exact fun _ hway => absurd hway List.not_mem_nil
  | through hnext ih =>
    intro way hway
    rcases List.mem_cons.mp hway with rfl | hway
    · exact ⟨rfl, rfl⟩
    · obtain ⟨rest, hrest, rfl⟩ := List.mem_map.mp hway
      exact ih rest hrest

/-- A way that ends in a qualifier of the owner's name passes no table. -/
theorem Clear.origin_eq_iff {owner : Table} {filter : Filter} (h : filter.Clear owner) {way : Way}
    (hway : way ∈ filter.ways) : way.origin owner.name = owner.name ↔ way.passed = [] := by
  constructor
  · intro heq
    by_contra hne
    obtain ⟨earlier, hearlier, hsteps⟩ := exists_way_passed hway hne
    rw [Way.origin, if_neg hne, ← hsteps] at heq
    exact h.notMem (heq ▸ List.mem_map_of_mem hearlier)
  · exact fun hnil => if_pos hnil

/-- Ways over the same tables that give the same join are the same. -/
theorem Follows.way_eq_of_join_eq {owner : Table} {filter other : Filter}
    (hfilter : filter.Follows owner) (hother : other.Follows owner) {first second : Way}
    (hfirst : first ∈ filter.ways) (hsecond : second ∈ other.ways)
    (hpassed : first.passed = second.passed)
    (hjoin : first.join owner.name = second.join owner.name) : first = second := by
  obtain ⟨hleft, hright⟩ := hfilter.last_declared first hfirst
  obtain ⟨hotherLeft, hotherRight⟩ := hother.last_declared second hsecond
  obtain ⟨passed, ⟨table, qualifier, ⟨left, leftName⟩, ⟨right, rightName⟩⟩⟩ := first
  obtain ⟨_, ⟨otherTable, other, ⟨otherLeft, otherLeftName⟩, ⟨otherRight, otherRightName⟩⟩⟩ :=
    second
  cases hpassed
  simp only [Way.join, Join.mk.injEq, Column.mk.injEq] at hjoin
  obtain ⟨rfl, hqualifier, ⟨-, rfl⟩, -, rfl⟩ := hjoin
  have hlast : qualifier = other := spelled_concat_inj hqualifier
  simp only at hleft hright hotherLeft hotherRight
  rw [hleft, hright, hotherLeft, hotherRight, hlast]

/-- If ways of two filters with one qualifier always give one join, they are the same ways. -/
theorem Follows.way_eq {owner : Table} {filter other : Filter} (hfilter : filter.Follows owner)
    (hother : other.Follows owner) (hclear : filter.Clear owner) (hotherClear : other.Clear owner)
    (hjoin : ∀ first ∈ filter.ways, ∀ second ∈ other.ways, first.qualifier = second.qualifier →
      first.join owner.name = second.join owner.name)
    {first second : Way} (hfirst : first ∈ filter.ways) (hsecond : second ∈ other.ways)
    (hqualifier : first.qualifier = second.qualifier) : first = second := by
  induction hlength : first.passed.length using Nat.strong_induction_on
    generalizing first second with
  | _ length ih =>
    have hsame := hjoin first hfirst second hsecond hqualifier
    have horigin : first.origin owner.name = second.origin owner.name :=
      congrArg (fun join => join.right.qualifier) hsame
    have hnil : first.passed = [] ↔ second.passed = [] := by
      rw [← hclear.origin_eq_iff hfirst, ← hotherClear.origin_eq_iff hsecond, horigin]
    refine hfilter.way_eq_of_join_eq hother hfirst hsecond ?_ hsame
    by_cases hpassed : first.passed = []
    · rw [hpassed, hnil.mp hpassed]
    · -- the tables before the last ones go by one qualifier too
      have hotherPassed : second.passed ≠ [] := mt hnil.mpr hpassed
      obtain ⟨earlier, hearlier, hsteps⟩ := exists_way_passed hfirst hpassed
      obtain ⟨before, hbefore, hotherSteps⟩ := exists_way_passed hsecond hotherPassed
      rw [Way.origin, Way.origin, if_neg hpassed, if_neg hotherPassed, ← hsteps,
        ← hotherSteps] at horigin
      have hshorter : earlier.passed.length < length := by
        rw [← hlength, ← hsteps, Way.steps, List.length_append]
        exact Nat.lt_succ_self _
      rw [← hsteps, ih _ hshorter hearlier hbefore horigin rfl, hotherSteps]

end Filter

end Sift
