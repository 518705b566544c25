import Sift.Proofs.Delegation

/-!
# Rules of which one is enough

Where one of several rules is enough, each of them narrows all rows on its own, and the rows of the
results are united. A result may join what it likes and set a page; it is asked for its rows in a
scope of its own, so nothing of this is left in the union. The order and the repetition of the rules
do not matter.

This is for named scopes that stay with the table they are called for. Whatever else they do, what
is selected are rows of this table, and none is lost.
-/

namespace Sift

/-- A named scope that stays with the table of the scope it is given. -/
def NamedScope.KeepsTable : NamedScope → Prop
  | .own function => ∀ (scope : Scope) (arguments : ScopeArguments) (result : Scope),
      function scope arguments = .ok result → result.SameTable scope
  | .through _ _ _ => True
  | .absent _ => True

/-- The named scopes of a surface stay with its table. -/
def Surface.ScopesKeepTable (surface : Surface) : Prop :=
  ∀ entry ∈ surface.scopes, entry.2.KeepsTable

/-- A named scope that keeps its table selects from the table of the scope that it is called for. -/
theorem NamedScope.KeepsTable.sameTable {namedScope : NamedScope} (h : namedScope.KeepsTable)
    {arguments : ScopeArguments} {scope result : Scope}
    (hnarrow : namedScope.narrow arguments scope = .ok result) : result.SameTable scope := by
  cases namedScope with
  | own function => exact h scope arguments result hnarrow
  | through join related next =>
    obtain ⟨matched, -, hnarrow⟩ := bind_eq_ok.mp hnarrow
    cases hnarrow
    exact (scope.extends_conjoinVia join matched).sameTable
  | absent name => cases hnarrow

namespace Surface

variable {surface : Surface}

/-- The named scopes of such a surface stay with the table. -/
theorem sameTable_of_narrowByScope (hscopes : surface.ScopesKeepTable) {name : String}
    {arguments : ScopeArguments} {scope result : Scope}
    (h : surface.narrowByScope name arguments scope = .ok result) : result.SameTable scope := by
  unfold narrowByScope at h
  cases hlookup : surface.scopes.lookup name with
  | none =>
    rw [hlookup] at h
    cases h
  | some namedScope =>
    rw [hlookup] at h
    have hkeeps : namedScope.KeepsTable := hscopes (name, namedScope) (Keyed.mem_of_lookup hlookup)
    exact hkeeps.sameTable h

/-- So does every rule, as filters do in any case. -/
theorem sameTable_of_narrowByRule (hscopes : surface.ScopesKeepTable) {rule : Rule}
    {scope result : Scope} (h : surface.narrowByRule rule scope = .ok result) :
    result.SameTable scope := by
  cases rule with
  | blank =>
    cases h
    exact Scope.SameTable.refl scope
  | scope name param =>
    obtain ⟨arguments, -, h⟩ := bind_eq_ok.mp h
    exact sameTable_of_narrowByScope hscopes h
  | leaf attr arguments => exact (extends_of_narrowBy h).sameTable
  | composite rules conjunction =>
    rw [narrowByRule_composite, map_eq_ok] at h
    obtain ⟨combined, -, rfl⟩ := h
    exact (scope.extends_conjoin combined).sameTable

/-! ## Branches -/

/-- One rule that must hold on its own is applied to all rows. -/
theorem combine_singleton (surface : Surface) (rule : Rule) :
    surface.combine [rule] .exclusive = surface.narrowByRule rule surface.all := by
  show surface.narrowByAll [rule] surface.all = _
  rw [narrowByAll]
  cases surface.narrowByRule rule surface.all <;> rfl

/-- Branches are what each of the rules selects of all rows. -/
theorem branches_eq_ok {rules : List Rule} {branches : List Scope} :
    surface.branches rules = .ok branches ↔
      List.Forall₂ (fun rule branch => surface.narrowByRule rule surface.all = .ok branch)
        rules branches := by
  induction rules generalizing branches with
  | nil =>
    rw [List.forall₂_nil_left_iff]
    exact ⟨fun h => (Except.ok.inj h).symm, fun h => congrArg Except.ok h.symm⟩
  | cons rule rest ih =>
    rw [Surface.branches, bind_eq_ok, List.forall₂_cons_left_iff]
    constructor
    · rintro ⟨branch, hbranch, h⟩
      obtain ⟨others, hothers, h⟩ := bind_eq_ok.mp h
      cases h
      exact ⟨branch, others, hbranch, ih.mp hothers, rfl⟩
    · rintro ⟨branch, others, hbranch, hothers, rfl⟩
      exact ⟨branch, hbranch, bind_eq_ok.mpr ⟨others, ih.mpr hothers, rfl⟩⟩

/-- There are branches if each rule can be applied on its own. -/
theorem exists_branches_iff {rules : List Rule} :
    (∃ branches, surface.branches rules = .ok branches) ↔
      ∀ rule ∈ rules, ∃ branch, surface.narrowByRule rule surface.all = .ok branch := by
  simp only [branches_eq_ok]
  induction rules with
  | nil => simp
  | cons rule rest ih =>
    rw [List.forall_mem_cons, ← ih]
    constructor
    · rintro ⟨branches, h⟩
      obtain ⟨branch, others, hbranch, hothers, -⟩ := List.forall₂_cons_left_iff.mp h
      exact ⟨⟨branch, hbranch⟩, others, hothers⟩
    · rintro ⟨⟨branch, hbranch⟩, others, hothers⟩
      exact ⟨branch :: others, List.Forall₂.cons hbranch hothers⟩

/-- A branch is what one of the rules selects of all rows. -/
theorem mem_branches {rules : List Rule} {branches : List Scope}
    (h : surface.branches rules = .ok branches) {branch : Scope} :
    branch ∈ branches ↔
      ∃ rule ∈ rules, surface.narrowByRule rule surface.all = .ok branch := by
  have hforall := branches_eq_ok.mp h
  clear h
  induction hforall with
  | nil => simp
  | cons hfirst _ ih =>
    simp only [List.mem_cons, ih, exists_eq_or_imp, hfirst, Except.ok.injEq, @eq_comm _ branch]

/-- Rules of which one is enough combine to the union of their branches. -/
theorem combine_inclusive_eq_ok {rules : List Rule} (hne : rules ≠ []) {combined : Scope} :
    surface.combine rules .inclusive = .ok combined ↔
      ∃ branches, surface.branches rules = .ok branches ∧ surface.union branches = combined := by
  cases rules with
  | nil => exact absurd rfl hne
  | cons first rest =>
    rw [combine, bind_eq_ok]
    refine exists_congr fun branches => and_congr_right fun _ => ?_
    exact ⟨Except.ok.inj, congrArg Except.ok⟩

/-- The union succeeds if each rule does on its own. -/
theorem combinable_inclusive_iff {rules : List Rule} (hne : rules ≠ []) :
    (∃ combined, surface.combine rules .inclusive = .ok combined) ↔
      ∀ rule ∈ rules, ∃ alone, surface.narrowByRule rule surface.all = .ok alone := by
  rw [← exists_branches_iff]
  simp only [combine_inclusive_eq_ok hne]
  exact ⟨fun ⟨_, branches, h, _⟩ => ⟨branches, h⟩, fun ⟨branches, h⟩ => ⟨_, branches, h, rfl⟩⟩

/-- A union selects the rows of its branches, which are rows of the surface's own table. -/
theorem rows_union {Value : Type} [DecidableEq Value] {data : Data Value}
    (hkeyed : data.Keyed surface.table) {branches : List Scope}
    (hbranches : ∀ branch ∈ branches, branch.SameTable surface.all) :
    (surface.union branches).rows data = {key | ∃ branch ∈ branches, key ∈ branch.rows data} := by
  rw [union, Scope.rows_narrow_anyOf hkeyed.present List.not_mem_nil, Set.inter_eq_right]
  rintro key ⟨branch, hbranch, hkey⟩
  exact (hbranches branch hbranch).rows_subset hkey

/-- The union selects what one of the rules selects. -/
theorem rows_of_combine_inclusive (hscopes : surface.ScopesKeepTable) {rules : List Rule}
    (hne : rules ≠ []) {combined : Scope} (h : surface.combine rules .inclusive = .ok combined)
    {Value : Type} [DecidableEq Value] {data : Data Value} (hkeyed : data.Keyed surface.table) :
    combined.rows data = {key | ∃ rule ∈ rules, ∃ alone,
      surface.narrowByRule rule surface.all = .ok alone ∧ key ∈ alone.rows data} := by
  obtain ⟨branches, hbranches, rfl⟩ := (combine_inclusive_eq_ok hne).mp h
  have hsame : ∀ branch ∈ branches, branch.SameTable surface.all := by
    intro branch hbranch
    obtain ⟨rule, -, hrule⟩ := (mem_branches hbranches).mp hbranch
    exact sameTable_of_narrowByRule hscopes hrule
  rw [rows_union hkeyed hsame]
  ext key
  constructor
  · rintro ⟨branch, hbranch, hkey⟩
    obtain ⟨rule, hrule, hnarrow⟩ := (mem_branches hbranches).mp hbranch
    exact ⟨rule, hrule, branch, hnarrow, hkey⟩
  · rintro ⟨rule, hrule, branch, hnarrow, hkey⟩
    exact ⟨branch, (mem_branches hbranches).mpr ⟨rule, hrule, hnarrow⟩, hkey⟩

/-- The combination of rules of which one is enough exists exactly if each rule can be applied on its
own. It joins nothing, has no page, and selects the union of what the rules select. So any other list
of the same rules has a combination as well, which selects the same. -/
theorem rows_combine_inclusive (hscopes : surface.ScopesKeepTable) {rules : List Rule}
    (hne : rules ≠ []) :
    ((∃ combined, surface.combine rules .inclusive = .ok combined) ↔
      ∀ rule ∈ rules, ∃ alone, surface.combine [rule] .exclusive = .ok alone) ∧
    ∀ combined, surface.combine rules .inclusive = .ok combined →
      combined.joins = [] ∧ combined.limit = none ∧ combined.offset = none ∧
      (∀ {Value : Type} [DecidableEq Value] (data : Data Value), data.Keyed surface.table →
        combined.rows data = {key | ∃ rule ∈ rules, ∃ alone,
          surface.combine [rule] .exclusive = .ok alone ∧ key ∈ alone.withoutPage.rows data}) ∧
      ∀ others : List Rule, (∀ rule, rule ∈ others ↔ rule ∈ rules) →
        ∃ again, surface.combine others .inclusive = .ok again ∧
          ∀ {Value : Type} [DecidableEq Value] (data : Data Value), data.Keyed surface.table →
            again.rows data = combined.rows data := by
  simp only [combine_singleton, Scope.rows_withoutPage]
  have hexists : (∃ combined, surface.combine rules .inclusive = .ok combined) ↔
      ∀ rule ∈ rules, ∃ alone, surface.narrowByRule rule surface.all = .ok alone :=
    combinable_inclusive_iff hne
  refine ⟨hexists, fun combined hcombined => ?_⟩
  obtain ⟨branches, -, hunion⟩ := (combine_inclusive_eq_ok hne).mp hcombined
  refine ⟨by rw [← hunion]; rfl, by rw [← hunion]; rfl, by rw [← hunion]; rfl,
    fun data hkeyed => rows_of_combine_inclusive hscopes hne hcombined hkeyed, ?_⟩
  intro others hothers
  have hne_others : others ≠ [] := by
    obtain ⟨rule, hrule⟩ := List.exists_mem_of_ne_nil rules hne
    exact List.ne_nil_of_mem ((hothers rule).mpr hrule)
  obtain ⟨again, hagain⟩ := (combinable_inclusive_iff hne_others).mpr fun rule hrule =>
    hexists.mp ⟨combined, hcombined⟩ rule ((hothers rule).mp hrule)
  refine ⟨again, hagain, fun data hkeyed => ?_⟩
  rw [rows_of_combine_inclusive hscopes hne_others hagain hkeyed,
    rows_of_combine_inclusive hscopes hne hcombined hkeyed]
  simp only [hothers]

/-! ### Authors with guests -/

/-- Authors with a named scope that forgets the scope it is given, joins posts and sets a page. -/
def guestAuthors : Surface :=
  { authors with
    allowedScopes := ["guests"]
    scopes := [("guests", .own fun scope _ => .ok
      { scope.cleared.withJoin ⟨"posts", "guest", ⟨"guest", "author_id"⟩, ⟨"authors", "id"⟩⟩ with
        conditions := [.compares (.column ⟨"guest", "id"⟩) .equal (.number (.integer 3))]
        limit := some 1
        offset := some 5 })] }

theorem scopesKeepTable_guestAuthors : guestAuthors.ScopesKeepTable := by
  intro entry hentry
  cases List.mem_singleton.mp hentry
  intro scope arguments result h
  cases h
  exact ⟨rfl, rfl⟩

/-- Guests, authors of posts with five votes, and guests none of whose posts has few votes. -/
def guestRules : List Rule :=
  [.scope "guests" .null, .leaf "posts_votes" ⟨.equals, .number (.integer 5), false⟩,
    .composite [.blank, .scope "guests" .null,
      .leaf "posts_votes" ⟨.atMost, .number (.integer 9), true⟩] .exclusive]

/-- The union joins nothing and has no page; the guest and the author of the voted post are in it,
and nobody else. -/
theorem rows_combine_inclusive_guests : ∃ combined,
    guestAuthors.ScopesKeepTable ∧ writings.Keyed guestAuthors.table ∧
    guestAuthors.combine guestRules .inclusive = .ok combined ∧
    combined.joins = [] ∧ combined.limit = none ∧ combined.offset = none ∧
    combined.rows writings = {key | ∃ rule ∈ guestRules, ∃ alone,
      guestAuthors.combine [rule] .exclusive = .ok alone ∧
        key ∈ alone.withoutPage.rows writings} ∧
    some 1 ∈ combined.rows writings ∧ some 2 ∈ combined.rows writings ∧
    some 3 ∉ combined.rows writings := by
  have hscopes := scopesKeepTable_guestAuthors
  have hkeyed : writings.Keyed guestAuthors.table := by decide
  have h : guestAuthors.combine guestRules .inclusive = .ok _ := rfl
  obtain ⟨hjoins, hlimit, hoffset, hrows, -⟩ :=
    (rows_combine_inclusive hscopes (List.cons_ne_nil _ _)).2 _ h
  exact ⟨_, hscopes, hkeyed, h, hjoins, hlimit, hoffset, hrows writings hkeyed, by decide,
    by decide, by decide⟩

end Surface

end Sift
