import Sift.Proofs.Pages
import Sift.Proofs.PlainRules

/-!
# The order of rules

Rules that must all hold can come in any order and any number of times. What such a list brings in
are the joins and the conditions of its rules, each rule being applied to all rows; another order
brings in the same joins and conditions, only listed otherwise. Conditions are all required, so
their order is without effect. The joins are joined one after the other, and each needs the table
that it is compared with; but both lists of joins are ordered, so that under each qualifier stands a
row that its join puts beside the row it compares with, whenever that is.

This is for rules that call no named scope and for results that give no qualifier twice. The base
that is filtered may be any scope: its own joins come first in every order.
-/

namespace Sift

/-! ## Scopes that list the same -/

/-- Two scopes have the same joins and the same conditions, listed in whatever order. -/
structure Scope.ListsSame (scope other : Scope) : Prop where
  joins : ∀ join, join ∈ scope.joins ↔ join ∈ other.joins
  conditions : ∀ condition, condition ∈ scope.conditions ↔ condition ∈ other.conditions

namespace Scope.ListsSame

theorem foldl {scope : Scope} {first second : List Scope}
    (h : ∀ other, other ∈ second ↔ other ∈ first) :
    (first.foldl Scope.conjoin scope).ListsSame (second.foldl Scope.conjoin scope) where
  joins join := by simp only [mem_joins_foldl, h]
  conditions condition := by
    simp only [conditions_foldl, List.mem_append, List.mem_flatMap, h]

theorem conjoin (base : Scope) {first second : Scope} (h : first.ListsSame second) :
    (base.conjoin first).ListsSame (base.conjoin second) where
  joins join := by rw [joins_conjoin, joins_conjoin, mem_addJoins, mem_addJoins, h.joins]
  conditions condition := by
    rw [conditions_conjoin, conditions_conjoin, List.mem_append, List.mem_append, h.conditions]

/-- Conjoining what is listed already adds nothing. -/
theorem conjoin_self {first second : Scope} (h : first.ListsSame second) :
    first.ListsSame (first.conjoin second) where
  joins join := by rw [joins_conjoin, mem_addJoins, ← h.joins, or_self]
  conditions condition := by rw [conditions_conjoin, List.mem_append, ← h.conditions, or_self]

theorem keeps_iff {Value : Type} [DecidableEq Value] (data : Data Value) {scope other : Scope}
    (h : scope.ListsSame other) (view : View Value) :
    scope.Keeps data view ↔ other.Keeps data view := by
  simp only [Keeps, h.conditions]

/-- Where one of two such scopes gives no qualifier twice, so does the other, as long as it lists no
join twice. -/
theorem names_nodup {scope other : Scope} (h : scope.ListsSame other)
    (htable : other.table = scope.table) (hjoins : other.joins.Nodup)
    (hnodup : scope.names.Nodup) : other.names.Nodup := by
  have hpart : other.PartOf scope := ⟨htable, fun join hjoin => (h.joins join).mpr hjoin, hjoins⟩
  exact hpart.names_nodup hnodup

end Scope.ListsSame

/-! ## Filtered bases -/

section

variable {Value : Type} [DecidableEq Value] {data : Data Value} {base first second : Scope}

/-- What ordered lists of the same joins add to a base gives the same lines. -/
theorem mem_joined_addJoins_congr (hfirst : JoinsOrdered [base.table] first.joins)
    (hsecond : JoinsOrdered [base.table] second.joins) (hsame : first.ListsSame second)
    (hnodup : (base.conjoin first).names.Nodup) (hnodup_second : (base.conjoin second).names.Nodup)
    {view line : View Value} :
    line ∈ joined data (Scope.addJoins base.joins first.joins) view ↔
      line ∈ joined data (Scope.addJoins base.joins second.joins) view := by
  have hneeded : [base.table] ⊆ [base.table] ++ base.joins.map Join.qualifier :=
    List.subset_append_left _ _
  obtain ⟨added, hadded, hordered⟩ := hfirst.exists_added hneeded
  obtain ⟨others, hothers, hordered_others⟩ := hsecond.exists_added hneeded
  -- behind the base's own joins stand the same ones on both sides
  have hsplit : ∀ {scope : Scope} {rest : List Join},
      Scope.addJoins base.joins scope.joins = base.joins ++ rest →
      (base.conjoin scope).names.Nodup →
      ([base.table] ++ base.joins.map Join.qualifier ++ rest.map Join.qualifier).Nodup ∧
        ∀ join, join ∈ rest ↔ (join ∈ base.joins ∨ join ∈ scope.joins) ∧ join ∉ base.joins := by
    intro scope rest heq hnames
    rw [Scope.names, Scope.joins_conjoin, heq, List.map_append] at hnames
    have hjoins : (base.joins ++ rest).Nodup :=
      .of_map Join.qualifier (List.map_append ▸ (List.nodup_cons.mp hnames).2)
    refine ⟨hnames, fun join => ?_⟩
    rw [← Scope.mem_addJoins, heq, List.mem_append]
    have hdisjoint : join ∈ rest → join ∉ base.joins := fun hrest hbase =>
      List.disjoint_of_nodup_append hjoins hbase hrest
    constructor
    · exact fun hrest => ⟨Or.inr hrest, hdisjoint hrest⟩
    · rintro ⟨hor, hnew⟩
      exact hor.resolve_left hnew
  obtain ⟨hnodup_added, hmem_added⟩ := hsplit hadded hnodup
  obtain ⟨hnodup_others, hmem_others⟩ := hsplit hothers hnodup_second
  have hmem : ∀ join, join ∈ added ↔ join ∈ others := by
    intro join
    rw [hmem_added, hmem_others, hsame.joins]
  rw [hadded, hothers, mem_joined_append, mem_joined_append]
  refine exists_congr fun between => and_congr_right fun _ => ?_
  exact mem_joined_congr hordered hnodup_added hordered_others hnodup_others hmem

/-- A base selects the same rows whichever of two scopes that list the same is conjoined with it. -/
theorem Scope.rows_conjoin_congr (hfirst : JoinsOrdered [base.table] first.joins)
    (hsecond : JoinsOrdered [base.table] second.joins) (hsame : first.ListsSame second)
    (hnodup : (base.conjoin first).names.Nodup)
    (hnodup_second : (base.conjoin second).names.Nodup) :
    (base.conjoin second).rows data = (base.conjoin first).rows data := by
  ext key
  rw [mem_rows, mem_rows]
  refine exists_congr fun line => ?_
  have hlines : line ∈ views data base.table (base.conjoin second).joins ↔
      line ∈ views data base.table (base.conjoin first).joins := by
    rw [mem_views, mem_views]
    refine exists_congr fun row => and_congr_right fun _ => ?_
    exact (mem_joined_addJoins_congr hfirst hsecond hsame hnodup hnodup_second).symm
  have hkeeps := (hsame.conjoin base).keeps_iff data line
  exact and_congr hlines (and_congr_left' hkeeps.symm)

variable (data) in
/-- A base that is conjoined with a scope of the same table selects the same rows, and gives no
qualifier twice, if the scope is replaced by one that lists the same. -/
theorem Scope.ScopedOver.conjoin_listsSame {table : Table} (hfirst : first.ScopedOver table)
    (hsecond : second.ScopedOver table) (hbase : base.Over table) (hsame : first.ListsSame second)
    (hnodup : (base.conjoin first).names.Nodup) :
    (base.conjoin second).names.Nodup ∧
      (base.conjoin second).rows data = (base.conjoin first).rows data := by
  have hjoins : (base.conjoin first).joins.Nodup := .of_map _ (List.nodup_cons.mp hnodup).2
  have hbase_joins : base.joins.Nodup :=
    hjoins.sublist (Scope.prefix_addJoins base.joins first.joins).sublist
  have hnodup_second : (base.conjoin second).names.Nodup :=
    (hsame.conjoin base).names_nodup rfl (Scope.nodup_addJoins hbase_joins second.joins) hnodup
  have hordered := hfirst.wellScoped.joins
  have hordered_second := hsecond.wellScoped.joins
  rw [hfirst.overTable.table_eq, ← hbase.table_eq] at hordered
  rw [hsecond.overTable.table_eq, ← hbase.table_eq] at hordered_second
  exact ⟨hnodup_second,
    Scope.rows_conjoin_congr hordered hordered_second hsame hnodup hnodup_second⟩

end

/-! ## Lists of rules -/

namespace Surface

variable {surface : Surface}

/-- The same rules, in another order and another number of times, leave of all rows a scope that
lists the same. -/
theorem exists_narrowByAll_reordered {rules others : List Rule} (hrules : CallNoScope rules)
    (hothers : CallNoScope others) (hsame : ∀ rule, rule ∈ others ↔ rule ∈ rules)
    {combined : Scope} (h : surface.narrowByAll rules surface.all = .ok combined) :
    ∃ other, surface.narrowByAll others surface.all = .ok other ∧ combined.ListsSame other := by
  rw [narrowByAll_eq_foldl_branches hrules, map_eq_ok] at h
  obtain ⟨branches, hbranches, rfl⟩ := h
  -- each of the other rules can be applied on its own, as it is one of the first
  have halone := exists_branches_iff.mp ⟨branches, hbranches⟩
  obtain ⟨changed, hchanged⟩ := exists_branches_iff.mpr fun rule hrule =>
    halone rule ((hsame rule).mp hrule)
  refine ⟨changed.foldl Scope.conjoin surface.all, ?_, Scope.ListsSame.foldl fun branch => ?_⟩
  · rw [narrowByAll_eq_foldl_branches hothers, hchanged]
    rfl
  · simp only [mem_branches hchanged, mem_branches hbranches, hsame]

/-- Rules that call no named scope conjoin a base with what they leave of all rows, and the page of
the base stays. -/
theorem narrowByRules_eq_conjoin {rules : List Rule} (hrules : CallNoScope rules)
    {combined : Scope} (h : surface.narrowByAll rules surface.all = .ok combined) (base : Scope) :
    surface.narrowByRules base rules .exclusive = .ok (base.conjoin combined) ∧
      (base.conjoin combined).SamePage base := by
  have hpage := samePage_of_narrowByAll rules hrules h
  refine ⟨?_, Scope.SamePage.conjoin ⟨hpage.limit_eq, hpage.offset_eq⟩⟩
  rw [narrowByRules_exclusive, h]
  rfl

/-- Rules that must all hold and call no named scope select the same rows of any base in every order
and with every number of repetitions, if the result gives no qualifier twice. In particular they
leave a base that they have filtered as it is. -/
theorem rows_narrowByRules_reordered {Value : Type} [DecidableEq Value] (data : Data Value)
    {limits : Limits} {declarations : List Declaration} {model : String}
    (hsurface : ((Catalog.empty limits).registerAll declarations).get? model = some surface)
    {rules others : List Rule} (hrules : CallNoScope rules)
    (hsame : ∀ rule, rule ∈ others ↔ rule ∈ rules) {base result : Scope}
    (hbase : base.Over surface.table)
    (h : surface.narrowByRules base rules .exclusive = .ok result)
    (hnodup : result.names.Nodup) :
    (∃ other, surface.narrowByRules base others .exclusive = .ok other ∧
      other.names.Nodup ∧ other.SamePage result ∧ other.rows data = result.rows data) ∧
    ∃ again, surface.narrowByRules result others .exclusive = .ok again ∧
      again.names.Nodup ∧ again.SamePage result ∧ again.rows data = result.rows data := by
  have hfollow := filtersFollow_of_registerAll hsurface
  have hothers : CallNoScope others := callNoScope_iff.mpr fun rule hrule =>
    callNoScope_iff.mp hrules rule ((hsame rule).mp hrule)
  rw [narrowByRules_exclusive, map_eq_ok] at h
  obtain ⟨combined, hcombined, rfl⟩ := h
  obtain ⟨changed, hchanged, hlists⟩ := exists_narrowByAll_reordered hrules hothers hsame hcombined
  have hscoped := scopedOver_of_callNoScope hfollow hrules hcombined
  have hscoped_changed := scopedOver_of_callNoScope hfollow hothers hchanged
  have hpage := (narrowByRules_eq_conjoin hrules hcombined base).2
  constructor
  · obtain ⟨hother, hpage_other⟩ := narrowByRules_eq_conjoin hothers hchanged base
    obtain ⟨hnames, hrows⟩ := hscoped.conjoin_listsSame data hscoped_changed hbase hlists hnodup
    exact ⟨_, hother, hnames, ⟨hpage_other.limit_eq.trans hpage.limit_eq.symm,
      hpage_other.offset_eq.trans hpage.offset_eq.symm⟩, hrows⟩
  · -- filtering twice conjoins the base with the first scope and the second one together
    obtain ⟨hagain, hpage_again⟩ :=
      narrowByRules_eq_conjoin hothers hchanged (base.conjoin combined)
    obtain ⟨hnames, hrows⟩ := hscoped.conjoin_listsSame data (hscoped.conjoin hscoped_changed) hbase
      hlists.conjoin_self hnodup
    rw [← Scope.conjoin_assoc] at hnames hrows
    exact ⟨_, hagain, hnames, hpage_again, hrows⟩

/-! ### Visits with a shop -/

/-- A visit with an offer up to seven, in the first city, to a shop without an offer of two. -/
def cheapRules : List Rule :=
  [.leaf "shop_offers_price" ⟨.atMost, .number (.integer 7), false⟩,
    .composite [.leaf "shop_city" ⟨.equals, .number (.integer 1), false⟩] .inclusive,
    .leaf "shop_city" ⟨.equals, .number (.integer 1), false⟩,
    .leaf "shop_offers_price" ⟨.equals, .number (.integer 2), true⟩]

/-- The same rules from the last to the first, and two of them once more. -/
def cheapRulesAgain : List Rule :=
  cheapRules.reverse ++ cheapRules.take 2

/-- The first page of visits, whose shop is joined already. -/
def visitsWithShop : Scope :=
  { visits.all.withJoin ⟨"shops", "shop", ⟨"shop", "id"⟩, ⟨"visits", "shop_id"⟩⟩ with
    limit := some 2 }

/-- Of three shops, two are in the first city, and one of these has an offer of two. -/
def visitData : Data Nat := .ofTables
  [("cities", [[("id", 1)], [("id", 2)]]),
    ("shops", [[("id", 1), ("city_id", 1)], [("id", 2), ("city_id", 2)],
      [("id", 3), ("city_id", 1)]]),
    ("offers", [[("id", 1), ("shop_id", 1), ("price", 5)], [("id", 2), ("shop_id", 1), ("price", 6)],
      [("id", 3), ("shop_id", 2), ("price", 5)], [("id", 4), ("shop_id", 3), ("price", 2)]]),
    ("visits", [[("id", 1), ("shop_id", 1)], [("id", 2), ("shop_id", 2)], [("id", 3), ("shop_id", 3)],
      [("id", 4)]])]

/-- The offers are joined before the city in one order and behind it in the other. -/
theorem rows_narrowByRules_reordered_visits : ∃ result other again,
    CallNoScope cheapRules ∧ (∀ rule, rule ∈ cheapRulesAgain ↔ rule ∈ cheapRules) ∧
    visitsWithShop.Over visits.table ∧
    visits.narrowByRules visitsWithShop cheapRules .exclusive = .ok result ∧
    result.names = ["visits", "shop", "shop_offers", "shop_city"] ∧
    visits.narrowByRules visitsWithShop cheapRulesAgain .exclusive = .ok other ∧
    other.names = ["visits", "shop", "shop_city", "shop_offers"] ∧
    other.limit = some 2 ∧ other.rows visitData = result.rows visitData ∧
    visits.narrowByRules result cheapRulesAgain .exclusive = .ok again ∧
    again.conditions.length = 10 ∧ again.rows visitData = result.rows visitData ∧
    some 1 ∈ result.rows visitData ∧ some 2 ∉ result.rows visitData ∧
    some 3 ∉ result.rows visitData := by
  have hvisits : ((Catalog.empty Limits.default).registerAll visitDeclarations).get? "Visit" =
      some visits := (Option.some_get _).symm
  have hrules : CallNoScope cheapRules := ⟨trivial, ⟨trivial, trivial⟩, trivial, trivial, trivial⟩
  have hsame : ∀ rule, rule ∈ cheapRulesAgain ↔ rule ∈ cheapRules := by
    intro rule
    rw [cheapRulesAgain, List.mem_append, List.mem_reverse]
    exact ⟨fun h => h.elim id (List.take_subset 2 _ ·), Or.inl⟩
  have hbase : visitsWithShop.Over visits.table := ⟨rfl, rfl, rfl⟩
  have h : visits.narrowByRules visitsWithShop cheapRules .exclusive = .ok _ := rfl
  obtain ⟨⟨other, hother, -, hpage, hrows⟩, again, hagain, -, -, hrows_again⟩ :=
    rows_narrowByRules_reordered visitData hvisits hrules hsame hbase h (by decide)
  have hother_names : other.names = ["visits", "shop", "shop_city", "shop_offers"] := by
    cases hother
    rfl
  have hconditions : again.conditions.length = 10 := by
    cases hagain
    rfl
  exact ⟨_, other, again, hrules, hsame, hbase, h, rfl, hother, hother_names, hpage.limit_eq, hrows,
    hagain, hconditions, hrows_again, by decide, by decide, by decide⟩

end Surface

end Sift
