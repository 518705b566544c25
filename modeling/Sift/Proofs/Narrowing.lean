import Sift.Proofs.Contributions
import Sift.Proofs.Registrations

/-!
# Several rules that reach related rows

Rules that must all hold are conjoined, and rules that go through the same association share its
join. Where an owner may have several related rows, such rules ask for one related row that all of
them select, and not for one row each: an author with a post of five votes and another one of seven
is not selected by the rules that ask for five and for seven votes, though each of them selects the
author.

So filtering by rules selects no more than the intersection of what the rules select on their own,
and exactly the intersection where the joins that two of them share find at most one row.
-/

namespace Sift

/-- A rule that calls a filter without inversion. -/
def Rule.IsPlainLeaf (rule : Rule) : Prop :=
  ∃ attr operator param, rule = .leaf attr ⟨operator, param, false⟩

theorem Rule.IsPlainLeaf.isLeaf {rule : Rule} (h : rule.IsPlainLeaf) : rule.IsLeaf :=
  let ⟨attr, _, _, heq⟩ := h
  ⟨attr, _, heq⟩

/-- Conjoining all rows of its table with a well scoped scope gives the scope; nothing is joined
twice. -/
theorem Scope.conjoin_all_left {scope : Scope} {table : Table} (h : scope.ScopedOver table) :
    (Scope.all table).conjoin scope = scope := by
  rw [← h.overTable.cleared_eq, cleared_conjoin h.nodup]

/-- If a scope gives no qualifier twice, neither does one that it extends. -/
theorem Scope.Extends.names_nodup {scope base : Scope} (h : scope.Extends base)
    (hnodup : scope.names.Nodup) : base.names.Nodup := by
  refine hnodup.sublist ?_
  rw [Scope.names, Scope.names, h.table_eq]
  exact (h.joins_prefix.sublist.map Join.qualifier).cons_cons base.table

namespace Surface

variable {surface : Surface}

/-! ## One rule -/

/-- What a plain rule selects on its own is well scoped over the table of the surface. -/
theorem FiltersFollow.scopedOver (hfollow : surface.FiltersFollow) {rule : Rule}
    (hplain : rule.IsPlainLeaf) {alone : Scope}
    (h : surface.narrowByRule rule surface.all = .ok alone) : alone.ScopedOver surface.table := by
  obtain ⟨attr, operator, param, rfl⟩ := hplain
  obtain ⟨filter, hlookup, hnarrow⟩ := narrowByAttribute_eq_ok.mp h
  have hfilter : filter.Follows surface.table :=
    hfollow (attr, filter) (Keyed.mem_of_lookup hlookup)
  exact hfilter.scopedOver hnarrow

/-- A plain rule on its own is a list of one. -/
theorem FiltersFollow.narrowByRules_singleton (hfollow : surface.FiltersFollow) {rule : Rule}
    (hplain : rule.IsPlainLeaf) :
    surface.narrowByRules surface.all [rule] .exclusive =
      surface.narrowByRule rule surface.all := by
  rw [narrowByRules_exclusive, narrowByAll]
  cases h : surface.narrowByRule rule surface.all with
  | error rejection => rfl
  | ok alone => exact congrArg Except.ok (Scope.conjoin_all_left (hfollow.scopedOver hplain h))

/-! ## Rules one after the other -/

section

variable {Value : Type} [DecidableEq Value] {data : Data Value}

/-- The rows that each of several rules selects on its own. -/
def selectedByEach (surface : Surface) (data : Data Value) (rules : List Rule) :
    Set (Option Value) :=
  {key | ∀ rule ∈ rules, ∃ alone,
    surface.narrowByRules surface.all [rule] .exclusive = .ok alone ∧ key ∈ alone.rows data}

/-- The joins that two rules share find at most one row. -/
def ShareToOne (surface : Surface) (data : Data Value) (first second : Rule) : Prop :=
  ∀ one other, surface.narrowByRules surface.all [first] .exclusive = .ok one →
    surface.narrowByRules surface.all [second] .exclusive = .ok other →
      one.SharesToOne data other

omit [DecidableEq Value] in
/-- Rules whose scopes have no join in common share none that finds several rows. -/
theorem shareToOne_of_disjoint {first second : Rule} {one other : Scope}
    (hone : surface.narrowByRules surface.all [first] .exclusive = .ok one)
    (hother : surface.narrowByRules surface.all [second] .exclusive = .ok other)
    (hdisjoint : ∀ join ∈ one.joins, join ∉ other.joins) :
    surface.ShareToOne data first second := by
  intro _ _ h hnext join hjoin hmem
  cases Except.ok.inj (hone.symm.trans h)
  cases Except.ok.inj (hother.symm.trans hnext)
  exact absurd hmem (hdisjoint join hjoin)

/-- What all rules of a list select is what the first one selects of what the others do. -/
theorem selectedByEach_cons (hfollow : surface.FiltersFollow) {rule : Rule} {rest : List Rule}
    (hplain : rule.IsPlainLeaf) {alone : Scope}
    (h : surface.narrowByRule rule surface.all = .ok alone) :
    surface.selectedByEach data (rule :: rest) =
      alone.rows data ∩ surface.selectedByEach data rest := by
  ext key
  simp only [selectedByEach, Set.mem_ofPred_eq, List.forall_mem_cons, Set.mem_inter_iff,
    hfollow.narrowByRules_singleton hplain, h, Except.ok.injEq, exists_eq_left']

/-- What filtering a scope by rules one after the other gives. -/
structure NarrowedByEach (surface : Surface) (data : Data Value) (rules : List Rule)
    (scope result : Scope) : Prop where
  scopedOver : result.ScopedOver surface.table
  extends_scope : result.Extends scope
  accepted : ∀ rule ∈ rules, ∃ alone,
    surface.narrowByRules surface.all [rule] .exclusive = .ok alone
  rows_subset : result.names.Nodup →
    result.rows data ⊆ scope.rows data ∩ surface.selectedByEach data rules
  rows_eq : data.Keyed surface.table → result.names.Nodup → rules.Pairwise (surface.ShareToOne data) →
    (∀ rule ∈ rules, ∀ alone, surface.narrowByRules surface.all [rule] .exclusive = .ok alone →
      scope.SharesToOne data alone) →
    result.rows data = scope.rows data ∩ surface.selectedByEach data rules

/-- One rule after the other narrows a scope to what each of them selects. The induction carries the
scope so far, whose joins come from the rules before. -/
theorem narrowedByEach (hfollow : surface.FiltersFollow) {rules : List Rule}
    (hplain : ∀ rule ∈ rules, rule.IsPlainLeaf) {scope result : Scope}
    (hscope : scope.ScopedOver surface.table)
    (h : surface.narrowByAll rules scope = .ok result) :
    surface.NarrowedByEach data rules scope result := by
  induction rules generalizing scope with
  | nil =>
    cases h
    have hnone : surface.selectedByEach data [] = Set.univ :=
      Set.eq_univ_of_forall fun _ _ hrule => absurd hrule List.not_mem_nil
    refine ⟨hscope, Scope.Extends.refl result, fun _ hrule => absurd hrule List.not_mem_nil, ?_, ?_⟩
    · rw [hnone, Set.inter_univ]
      exact fun _ => Set.Subset.refl _
    · rw [hnone, Set.inter_univ]
      exact fun _ _ _ _ => rfl
  | cons rule rest ih =>
    obtain ⟨hrule, hrest⟩ := List.forall_mem_cons.mp hplain
    obtain ⟨narrowed, hnarrowed, h⟩ := bind_eq_ok.mp h
    rw [narrowByRule_leaf hrule.isLeaf hscope.overTable, map_eq_ok] at hnarrowed
    obtain ⟨alone, halone, rfl⟩ := hnarrowed
    have hscoped := hfollow.scopedOver hrule halone
    have hsingle := (hfollow.narrowByRules_singleton hrule).trans halone
    have htail := ih hrest (hscope.conjoin hscoped) h
    refine ⟨htail.scopedOver, htail.extends_scope.trans (scope.extends_conjoin alone),
      List.forall_mem_cons.mpr ⟨⟨alone, hsingle⟩, htail.accepted⟩, ?_, ?_⟩
    · intro hnodup
      have hfirst : (scope.conjoin alone).rows data ⊆ scope.rows data ∩ alone.rows data :=
        Scope.rows_conjoin_subset hscope hscoped (htail.extends_scope.names_nodup hnodup)
      rw [selectedByEach_cons hfollow hrule halone, ← Set.inter_assoc]
      exact (htail.rows_subset hnodup).trans (Set.inter_subset_inter_left _ hfirst)
    · intro hkeyed hnodup hshare hscope_shares
      obtain ⟨hrule_shares, hrest_share⟩ := List.pairwise_cons.mp hshare
      obtain ⟨halone_shares, hscope_shares⟩ := List.forall_mem_cons.mp hscope_shares
      have hfirst := Scope.rows_conjoin_of_sharesToOne hscope hscoped
        (halone_shares alone hsingle) hkeyed (htail.extends_scope.names_nodup hnodup)
      rw [selectedByEach_cons hfollow hrule halone, ← Set.inter_assoc, ← hfirst]
      refine htail.rows_eq hkeyed hnodup hrest_share fun other hother next hnext => ?_
      -- a join that is shared with what is narrowed so far is one of the scope or of the first rule
      intro join hjoin hmem
      rcases Scope.mem_addJoins.mp hjoin with hjoin | hjoin
      · exact hscope_shares other hother next hnext join hjoin hmem
      · exact hrule_shares other hother alone next hsingle hnext join hjoin hmem

end

/-- Filtering all rows by plain rules is possible only if each rule can be applied on its own, and
selects no row that one of the rules does not select. It selects all rows that each rule selects if
the joins that two of the rules share find at most one row. -/
theorem rows_narrowByRules_shared {limits : Limits} {declarations : List Declaration}
    {model : String}
    (hsurface : ((Catalog.empty limits).registerAll declarations).get? model = some surface)
    {rules : List Rule} (hne : rules ≠ []) (hplain : ∀ rule ∈ rules, rule.IsPlainLeaf)
    {result : Scope} (h : surface.narrowByRules surface.all rules .exclusive = .ok result)
    (hnodup : result.names.Nodup) {Value : Type} [DecidableEq Value] {data : Data Value}
    (hkeyed : data.Keyed surface.table) :
    (∀ rule ∈ rules, ∃ alone,
      surface.narrowByRules surface.all [rule] .exclusive = .ok alone) ∧
    result.rows data ⊆ surface.selectedByEach data rules ∧
    (rules.Pairwise (surface.ShareToOne data) →
      result.rows data = surface.selectedByEach data rules) := by
  have hfollow : surface.FiltersFollow := filtersFollow_of_registerAll hsurface
  have hscoped : surface.all.ScopedOver surface.table := Scope.scopedOver_all surface.table
  rw [narrowByRules_exclusive, map_eq_ok] at h
  obtain ⟨combined, hcombined, rfl⟩ := h
  have hnarrowed : surface.NarrowedByEach data rules surface.all combined :=
    narrowedByEach hfollow hplain hscoped hcombined
  have hresult : surface.all.conjoin combined = combined :=
    Scope.conjoin_all_left hnarrowed.scopedOver
  rw [hresult] at hnodup ⊢
  refine ⟨hnarrowed.accepted, ?_, fun hshare => ?_⟩
  · exact (hnarrowed.rows_subset hnodup).trans Set.inter_subset_right
  · rw [hnarrowed.rows_eq hkeyed hnodup hshare fun _ _ _ _ _ hjoin =>
      absurd hjoin List.not_mem_nil, Set.inter_eq_right]
    -- there is a rule, and what it selects are rows of the surface's table
    intro key hkey
    obtain ⟨rule, hrule⟩ := List.exists_mem_of_ne_nil rules hne
    obtain ⟨alone, halone, hmem⟩ := hkey rule hrule
    rw [hfollow.narrowByRules_singleton (hplain rule hrule)] at halone
    have hover := (hfollow.scopedOver (hplain rule hrule) halone).overTable
    have hsame : alone.SameTable surface.all := ⟨hover.table_eq, hover.primaryKey_eq⟩
    exact hsame.rows_subset hmem

/-! ### Writers of posts and of reviews -/

def writerDeclarations : List Declaration :=
  [.basic (.declare "Post" "posts" "id" [("writer_id", .integer), ("votes", .integer)]) ["votes"] [],
    .basic (.declare "Review" "reviews" "id" [("writer_id", .integer), ("stars", .integer)])
      ["stars"] [],
    .basic (.declare "Writer" "writers" "id" []) []
      [⟨.hasMany, "posts", "writer_id", "Post"⟩, ⟨.hasMany, "reviews", "writer_id", "Review"⟩]]

def writers : Surface :=
  (((Catalog.empty Limits.default).registerAll writerDeclarations).get? "Writer").get rfl

/-- A writer of two posts and two reviews, and a writer of one post. -/
def works : Data Nat :=
  .ofTables [
    ("writers", [[("id", 1)], [("id", 2)]]),
    ("posts", [
      [("id", 1), ("writer_id", 1), ("votes", 5)],
      [("id", 2), ("writer_id", 1), ("votes", 7)],
      [("id", 3), ("writer_id", 2), ("votes", 5)]]),
    ("reviews", [
      [("id", 1), ("writer_id", 1), ("stars", 2)],
      [("id", 2), ("writer_id", 1), ("stars", 4)]])]

/-- Requires a post with a number of votes. -/
def votesRule (votes : Int) : Rule :=
  .leaf "posts_votes" ⟨.equals, .number (.integer votes), false⟩

/-- Requires a review with at least a number of stars. -/
def starsRule (stars : Int) : Rule :=
  .leaf "reviews_stars" ⟨.atLeast, .number (.integer stars), false⟩

/-- Posts and reviews are joined side by side, so the writer of both is selected. -/
theorem rows_narrowByRules_shared_reviews : ∃ result,
    ((Catalog.empty Limits.default).registerAll writerDeclarations).get? "Writer" =
      some writers ∧
    (∀ rule ∈ [votesRule 7, starsRule 3], rule.IsPlainLeaf) ∧
    writers.narrowByRules writers.all [votesRule 7, starsRule 3] .exclusive = .ok result ∧
    result.names.Nodup ∧ works.Keyed writers.table ∧
    [votesRule 7, starsRule 3].Pairwise (writers.ShareToOne works) ∧
    result.rows works = writers.selectedByEach works [votesRule 7, starsRule 3] ∧
    some 1 ∈ result.rows works := by
  have hwriters : ((Catalog.empty Limits.default).registerAll writerDeclarations).get? "Writer" =
      some writers := (Option.some_get _).symm
  have hplain : ∀ rule ∈ [votesRule 7, starsRule 3], rule.IsPlainLeaf :=
    List.forall_mem_cons.mpr ⟨⟨_, _, _, rfl⟩, List.forall_mem_singleton.mpr ⟨_, _, _, rfl⟩⟩
  have h : writers.narrowByRules writers.all [votesRule 7, starsRule 3] .exclusive = .ok _ := rfl
  have hkeyed : works.Keyed writers.table := by decide
  have hshare : [votesRule 7, starsRule 3].Pairwise (writers.ShareToOne works) :=
    List.pairwise_pair.mpr (shareToOne_of_disjoint rfl rfl (by decide))
  exact ⟨_, hwriters, hplain, h, by decide, hkeyed, hshare,
    (rows_narrowByRules_shared hwriters (List.cons_ne_nil _ _) hplain h (by decide) hkeyed).2.2
      hshare, by decide⟩

/-- Both rules go through the posts, and no post has five votes and seven: the writer of a post with
five and a post with seven, whom each rule selects, is not selected. -/
theorem rows_narrowByRules_one_post : ∃ result,
    ((Catalog.empty Limits.default).registerAll writerDeclarations).get? "Writer" =
      some writers ∧
    (∀ rule ∈ [votesRule 5, votesRule 7], rule.IsPlainLeaf) ∧
    writers.narrowByRules writers.all [votesRule 5, votesRule 7] .exclusive = .ok result ∧
    result.names.Nodup ∧ works.Keyed writers.table ∧
    result.rows works ≠ writers.selectedByEach works [votesRule 5, votesRule 7] := by
  have h : writers.narrowByRules writers.all [votesRule 5, votesRule 7] .exclusive = .ok _ := rfl
  refine ⟨_, (Option.some_get _).symm, List.forall_mem_cons.mpr ⟨⟨_, _, _, rfl⟩,
    List.forall_mem_singleton.mpr ⟨_, _, _, rfl⟩⟩, h, by decide, by decide, fun heq => ?_⟩
  have hboth : some 1 ∈ writers.selectedByEach works [votesRule 5, votesRule 7] :=
    List.forall_mem_cons.mpr ⟨⟨_, rfl, by decide⟩,
      List.forall_mem_singleton.mpr ⟨_, rfl, by decide⟩⟩
  rw [← heq] at hboth
  exact absurd hboth (by decide)

end Surface

end Sift
