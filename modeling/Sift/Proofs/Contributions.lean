import Sift.Proofs.DirectFilters

/-!
# What a rule contributes

A rule conjoins a scope with what it leaves of all rows. So what it contributes is the same whatever
the rules before it were: joins that are there already are left out in the same way, inverted rules
exclude what they select from all rows, and a composite is combined on its own in any case. Named
scopes may do anything with the scope that they are given, so this is for named scopes that only
add to it; those of related models are called with all rows and need not.

Rules that must all hold can therefore be regrouped: a composite of them can be written out, a blank
rule left out, and a list split into two that filter one after the other.
-/

namespace Sift

/-- A rule that calls a filter. -/
def Rule.IsLeaf (rule : Rule) : Prop :=
  ∃ attr arguments, rule = .leaf attr arguments

/-- A named scope that conjoins a scope of a table's rows with what it leaves of all rows. -/
def NamedScope.Appends (table : Table) : NamedScope → Prop
  | .own function => ∀ (scope : Scope) (arguments : ScopeArguments), scope.Over table →
      function scope arguments = (function (Scope.all table) arguments).map scope.conjoin
  | .through _ _ _ => True
  | .absent _ => True

/-- The named scopes of a surface only add to the scope that they are given. -/
def Surface.ScopesAppend (surface : Surface) : Prop :=
  ∀ entry ∈ surface.scopes, entry.2.Appends surface.table

section

variable {table : Table} {scope : Scope}

/-- All rows of a table require nothing. -/
theorem Scope.conjoin_all (scope : Scope) (table : Table) :
    scope.conjoin (Scope.all table) = scope :=
  scope.conjoin_cleared (Scope.all table)

/-- Conjoining stays with the table of the first scope. -/
theorem Scope.Over.conjoin (h : scope.Over table) (other : Scope) :
    (scope.conjoin other).Over table :=
  ⟨h.model_eq, h.table_eq, h.primaryKey_eq⟩

/-- Conjoining twice is conjoining with the conjunction. -/
theorem map_conjoin_map_conjoin (outcome : Except Rejection Scope) (first second : Scope) :
    (outcome.map second.conjoin).map first.conjoin =
      outcome.map (first.conjoin second).conjoin := by
  cases outcome with
  | error rejection => rfl
  | ok third => exact congrArg Except.ok (first.conjoin_assoc second third).symm

/-! ## One rule -/

/-- A named scope that appends conjoins every scope of the table with what it selects of all rows.
-/
theorem NamedScope.Appends.narrow_eq_conjoin {namedScope : NamedScope} (h : namedScope.Appends table)
    (hscope : scope.Over table) (arguments : ScopeArguments) :
    namedScope.narrow arguments scope =
      (namedScope.narrow arguments (Scope.all table)).map scope.conjoin := by
  cases namedScope with
  | own function => exact h scope arguments hscope
  | through join related next =>
    rw [NamedScope.narrow, NamedScope.narrow]
    cases next.narrow arguments (Scope.all related) with
    | error rejection => rfl
    | ok matched =>
      refine congrArg Except.ok ?_
      rw [scope.conjoinVia_eq_conjoin, hscope.cleared_eq]
  | absent name => rfl

/-- Conjoining with what is left of all rows is excluding from the scope. -/
theorem Scope.Over.conjoin_excluding (h : scope.Over table) (other : Scope) :
    scope.conjoin ((Scope.all table).excluding other) = scope.excluding other := by
  have hkey : (Scope.all table).key = scope.key := by
    rw [Scope.key, Scope.key, h.table_eq, h.primaryKey_eq, Scope.all]
  rw [Scope.excluding, Scope.excluding, hkey, ← h.cleared_eq, Scope.conjoin_narrow_cleared]

/-- A filter conjoins a scope with what it selects of all rows, inverted or not. -/
theorem Filter.narrow_eq_conjoin (filter : Filter) (hscope : scope.Over table)
    (arguments : Arguments) :
    filter.narrow arguments scope =
      (filter.narrow arguments (Scope.all table)).map scope.conjoin := by
  obtain ⟨operator, param, invert⟩ := arguments
  cases invert with
  | true =>
    have hcleared : (Scope.all table).cleared = Scope.all table := rfl
    rw [narrow_inverted, narrow_inverted, hscope.cleared_eq, hcleared]
    cases filter.narrow ⟨operator, param, false⟩ (Scope.all table) with
    | error rejection => rfl
    | ok matched => exact congrArg Except.ok (hscope.conjoin_excluding matched).symm
  | false => rw [narrow_plain, hscope.cleared_eq]

namespace Surface

variable {surface : Surface}

/-- The named scope of a surface contributes the same to every scope of its table. -/
theorem narrowByScope_eq_conjoin (happend : surface.ScopesAppend) (name : String)
    (arguments : ScopeArguments) (hscope : scope.Over surface.table) :
    surface.narrowByScope name arguments scope =
      (surface.narrowByScope name arguments surface.all).map scope.conjoin := by
  unfold narrowByScope
  cases hlookup : surface.scopes.lookup name with
  | none => rfl
  | some namedScope =>
    have happends : namedScope.Appends surface.table :=
      happend (name, namedScope) (Keyed.mem_of_lookup hlookup)
    exact happends.narrow_eq_conjoin hscope arguments

/-- The filter of a surface contributes the same to every scope of its table. -/
theorem narrowBy_eq_conjoin (surface : Surface) (name : String) (arguments : Arguments)
    (hscope : scope.Over surface.table) :
    surface.narrowBy name arguments scope =
      (surface.narrowBy name arguments surface.all).map scope.conjoin := by
  unfold narrowBy
  cases surface.filter? name with
  | none => rfl
  | some filter => exact filter.narrow_eq_conjoin hscope arguments

/-- Rules that are no composite contribute what their filter or named scope does. -/
theorem narrowByRule_leaf {rule : Rule} (hleaf : rule.IsLeaf)
    (hscope : scope.Over surface.table) :
    surface.narrowByRule rule scope =
      (surface.narrowByRule rule surface.all).map scope.conjoin := by
  obtain ⟨attr, arguments, rfl⟩ := hleaf
  exact surface.narrowBy_eq_conjoin (filterName attr) arguments hscope

/-- A rule conjoins a scope with what it leaves of all rows. -/
theorem narrowByRule_eq_conjoin (happend : surface.ScopesAppend) (rule : Rule)
    (hscope : scope.Over surface.table) :
    surface.narrowByRule rule scope =
      (surface.narrowByRule rule surface.all).map scope.conjoin := by
  cases rule with
  | blank => exact congrArg Except.ok (scope.conjoin_all surface.table).symm
  | scope name param =>
    rw [narrowByRule, narrowByRule]
    cases surface.callable name param with
    | error rejection => rfl
    | ok arguments => exact narrowByScope_eq_conjoin happend name arguments hscope
  | leaf attr arguments => exact narrowByRule_leaf ⟨attr, arguments, rfl⟩ hscope
  | composite rules conjunction =>
    -- the rules inside are combined in the same way for every scope
    have hall : scope.conjoin surface.all = scope := scope.conjoin_all surface.table
    rw [narrowByRule_composite, narrowByRule_composite, map_conjoin_map_conjoin, hall]

/-! ## Lists of rules -/

theorem over_all (surface : Surface) : surface.all.Over surface.table := ⟨rfl, rfl, rfl⟩

/-- A rule narrows a scope of the table to another one. -/
theorem over_of_narrowByRule (happend : surface.ScopesAppend) {rule : Rule} {result : Scope}
    (hscope : scope.Over surface.table) (h : surface.narrowByRule rule scope = .ok result) :
    result.Over surface.table := by
  rw [narrowByRule_eq_conjoin happend rule hscope, map_eq_ok] at h
  obtain ⟨alone, -, rfl⟩ := h
  exact hscope.conjoin alone

/-- The rules of two lists are applied one list after the other. -/
theorem narrowByAll_append (surface : Surface) (first second : List Rule) (scope : Scope) :
    surface.narrowByAll (first ++ second) scope =
      surface.narrowByAll first scope >>= surface.narrowByAll second := by
  induction first generalizing scope with
  | nil => rfl
  | cons rule rest ih =>
    rw [List.cons_append, narrowByAll, narrowByAll]
    cases surface.narrowByRule rule scope with
    | error rejection => rfl
    | ok narrowed => exact ih narrowed

/-- A rule that conjoins every scope of a surface's rows with what it leaves of all rows. -/
def Contributes (surface : Surface) (rule : Rule) : Prop :=
  ∀ scope : Scope, scope.Over surface.table →
    surface.narrowByRule rule scope =
      (surface.narrowByRule rule surface.all).map scope.conjoin

/-- Such rules, one after the other, conjoin a scope with what each of them leaves of all rows. -/
theorem narrowByAll_eq_foldl {rules : List Rule} (hrules : ∀ rule ∈ rules, surface.Contributes rule)
    (hscope : scope.Over surface.table) :
    surface.narrowByAll rules scope =
      (surface.branches rules).map (List.foldl Scope.conjoin scope) := by
  induction rules generalizing scope with
  | nil => rfl
  | cons rule rest ih =>
    obtain ⟨hrule, hrest⟩ := List.forall_mem_cons.mp hrules
    rw [narrowByAll, branches, hrule scope hscope]
    cases surface.narrowByRule rule surface.all with
    | error rejection => rfl
    | ok alone =>
      show surface.narrowByAll rest (scope.conjoin alone) = _
      rw [ih hrest (hscope.conjoin alone)]
      cases surface.branches rest <;> rfl

/-- Rules one after the other conjoin a scope with what they leave of all rows. -/
theorem narrowByAll_eq_conjoin (happend : surface.ScopesAppend) (rules : List Rule)
    (hscope : scope.Over surface.table) :
    surface.narrowByAll rules scope =
      (surface.narrowByAll rules surface.all).map scope.conjoin := by
  induction rules generalizing scope with
  | nil => exact congrArg Except.ok (scope.conjoin_all surface.table).symm
  | cons rule rest ih =>
    rw [narrowByAll, narrowByAll, narrowByRule_eq_conjoin happend rule hscope]
    cases hrule : surface.narrowByRule rule surface.all with
    | error rejection => rfl
    | ok alone =>
      have halone : alone.Over surface.table :=
        over_of_narrowByRule happend surface.over_all hrule
      show surface.narrowByAll rest (scope.conjoin alone) =
        (surface.narrowByAll rest alone).map scope.conjoin
      rw [ih (hscope.conjoin alone), ih halone, map_conjoin_map_conjoin]

/-- Rules that must all hold conjoin any base with what they leave of all rows. -/
theorem narrowByRules_exclusive (surface : Surface) (base : Scope) (rules : List Rule) :
    surface.narrowByRules base rules .exclusive =
      (surface.narrowByAll rules surface.all).map base.conjoin := by
  cases rules with
  | nil => exact congrArg Except.ok (base.conjoin_all surface.table).symm
  | cons rule rest => rfl

/-- A composite whose rules must all hold, on its own, is the list of its rules. -/
theorem narrowByAll_composite (happend : surface.ScopesAppend) (rules : List Rule)
    (hscope : scope.Over surface.table) :
    surface.narrowByAll [.composite rules .exclusive] scope = surface.narrowByAll rules scope := by
  have hcombined : surface.narrowByRule (.composite rules .exclusive) scope =
      surface.narrowByAll rules scope := by
    rw [narrowByRule_composite, narrowByAll_eq_conjoin happend rules hscope]
    rfl
  rw [narrowByAll, hcombined]
  cases surface.narrowByAll rules scope <;> rfl

/-- Rules that must all hold narrow a scope of the table to another one. -/
theorem over_of_narrowByAll (happend : surface.ScopesAppend) {rules : List Rule} {result : Scope}
    (hscope : scope.Over surface.table) (h : surface.narrowByAll rules scope = .ok result) :
    result.Over surface.table := by
  rw [narrowByAll_eq_conjoin happend rules hscope, map_eq_ok] at h
  obtain ⟨alone, -, rfl⟩ := h
  exact hscope.conjoin alone

/-- Among rules that must all hold a composite of this kind can be written out. -/
theorem narrowByAll_inline (happend : surface.ScopesAppend) (before inner after : List Rule)
    (hscope : scope.Over surface.table) :
    surface.narrowByAll (before ++ .composite inner .exclusive :: after) scope =
      surface.narrowByAll (before ++ inner ++ after) scope := by
  rw [List.append_assoc, narrowByAll_append, narrowByAll_append]
  cases hbefore : surface.narrowByAll before scope with
  | error rejection => rfl
  | ok narrowed =>
    have hnarrowed : narrowed.Over surface.table := over_of_narrowByAll happend hscope hbefore
    show surface.narrowByAll ([.composite inner .exclusive] ++ after) narrowed =
      surface.narrowByAll (inner ++ after) narrowed
    rw [narrowByAll_append, narrowByAll_append, narrowByAll_composite happend inner hnarrowed]

/-- A blank rule among others can be left out. -/
theorem narrowByAll_blank (surface : Surface) (before after : List Rule) (scope : Scope) :
    surface.narrowByAll (before ++ .blank :: after) scope =
      surface.narrowByAll (before ++ after) scope := by
  rw [narrowByAll_append, narrowByAll_append]
  cases surface.narrowByAll before scope <;> rfl

/-- Filtering by a list is filtering by its first part and then by the rest. -/
theorem narrowByRules_append (happend : surface.ScopesAppend) (base : Scope)
    (first second : List Rule) :
    surface.narrowByRules base (first ++ second) .exclusive =
      surface.narrowByRules base first .exclusive >>= fun narrowed =>
        surface.narrowByRules narrowed second .exclusive := by
  simp only [narrowByRules_exclusive, narrowByAll_append]
  cases hfirst : surface.narrowByAll first surface.all with
  | error rejection => rfl
  | ok combined =>
    have hcombined : combined.Over surface.table :=
      over_of_narrowByAll happend surface.over_all hfirst
    show (surface.narrowByAll second combined).map base.conjoin =
      (surface.narrowByAll second surface.all).map (base.conjoin combined).conjoin
    rw [narrowByAll_eq_conjoin happend second hcombined, map_conjoin_map_conjoin]

/-- What a rule contributes does not depend on the scope that it narrows. So among rules that must
all hold a composite can be written out, a blank rule left out, and the list split into two that
filter one after the other: the scope, or the rejection, is the very same. -/
theorem narrowByRule_contribution (happend : surface.ScopesAppend) :
    (∀ (rule : Rule) (scope : Scope), scope.Over surface.table →
      surface.narrowByRule rule scope =
        (surface.narrowByRule rule surface.all).map scope.conjoin) ∧
    (∀ before inner after : List Rule,
      surface.combine (before ++ .composite inner .exclusive :: after) .exclusive =
        surface.combine (before ++ inner ++ after) .exclusive ∧
      ∀ base : Scope,
        surface.narrowByRules base (before ++ .composite inner .exclusive :: after) .exclusive =
          surface.narrowByRules base (before ++ inner ++ after) .exclusive) ∧
    (∀ before after : List Rule,
      surface.combine (before ++ .blank :: after) .exclusive =
        surface.combine (before ++ after) .exclusive ∧
      ∀ base : Scope,
        surface.narrowByRules base (before ++ .blank :: after) .exclusive =
          surface.narrowByRules base (before ++ after) .exclusive) ∧
    ∀ (base : Scope) (first second : List Rule),
      surface.narrowByRules base (first ++ second) .exclusive =
        surface.narrowByRules base first .exclusive >>= fun narrowed =>
          surface.narrowByRules narrowed second .exclusive := by
  refine ⟨fun rule scope hscope => narrowByRule_eq_conjoin happend rule hscope, ?_, ?_, ?_⟩
  · intro before inner after
    have hinline := narrowByAll_inline happend before inner after surface.over_all
    refine ⟨hinline, fun base => ?_⟩
    rw [narrowByRules_exclusive, narrowByRules_exclusive, hinline]
  · intro before after
    have hblank := surface.narrowByAll_blank before after surface.all
    refine ⟨hblank, fun base => ?_⟩
    rw [narrowByRules_exclusive, narrowByRules_exclusive, hblank]
  · exact narrowByRules_append happend

/-! ### The first author -/

/-- Authors with a named scope for the first of them, which sets a limit. -/
def rankedAuthors : Surface :=
  { authors with
    allowedScopes := ["first"]
    scopes := [("first", .own fun scope _ => .ok
      { scope.narrow [.compares authors.all.key .atMost (.number (.integer 1))] with
        limit := some 1 })] }

theorem scopesAppend_rankedAuthors : rankedAuthors.ScopesAppend := by
  intro entry hentry
  cases List.mem_singleton.mp hentry
  intro scope arguments hscope
  rw [← hscope.cleared_eq]
  simp [Except.map, Scope.conjoin, Scope.narrow, Scope.cleared]

/-- Authors of posts with five votes: the posts are joined already. -/
def votedAuthors : Scope :=
  (authors.all.withJoin (authored.join authors.table)).narrow
    [.compares (.column ⟨"posts", "votes"⟩) .equal (.number (.integer 5))]

/-- A composite with a named scope, a filter that shares a join with the scope, and one that is
inverted. -/
def rankedRule : Rule :=
  .composite [.scope "first" .null,
    .composite [.leaf "posts_votes" ⟨.atMost, .number (.integer 7), false⟩, .blank] .exclusive,
    .leaf "posts_votes" ⟨.equals, .null, true⟩] .exclusive

/-- Three authors of posts with five votes, the second of whom has a post without votes too, and a
fourth author. -/
def rankedWritings : Data Nat :=
  .ofTables [
    ("authors", [[("id", 0)], [("id", 1)], [("id", 2)], [("id", 3)]]),
    ("posts", [
      [("id", 1), ("author_id", 0), ("votes", 5)],
      [("id", 2), ("author_id", 1), ("votes", 5)],
      [("id", 3), ("author_id", 1)],
      [("id", 4), ("author_id", 2), ("votes", 5)]])]

/-- The rule contributes the same to the authors of voted posts as to all authors: three conditions,
a join that is there already, and a limit. Of the authors of voted posts the second one is excluded
for a post without votes, and the third one comes too late. -/
theorem narrowByRule_contribution_ranked : ∃ alone,
    rankedAuthors.ScopesAppend ∧ votedAuthors.Over rankedAuthors.table ∧
    rankedAuthors.narrowByRule rankedRule rankedAuthors.all = .ok alone ∧
    rankedAuthors.narrowByRule rankedRule votedAuthors = .ok (votedAuthors.conjoin alone) ∧
    alone.conditions = [
      .compares (.column ⟨"authors", "id"⟩) .atMost (.number (.integer 1)),
      .compares (.column ⟨"posts", "votes"⟩) .atMost (.number (.integer 7)),
      .isAmong (.column ⟨"authors", "id"⟩) (authors.all.conjoinVia (authored.join authors.table)
        (posts.all.narrow [.isNull (.column ⟨"posts", "votes"⟩)])) true] ∧
    alone.joins = [⟨"posts", "posts", ⟨"posts", "author_id"⟩, ⟨"authors", "id"⟩⟩] ∧
    (votedAuthors.conjoin alone).joins = alone.joins ∧
    (votedAuthors.conjoin alone).conditions =
      .compares (.column ⟨"posts", "votes"⟩) .equal (.number (.integer 5)) :: alone.conditions ∧
    (votedAuthors.conjoin alone).limit = some 1 ∧
    (votedAuthors.conjoin alone).rows rankedWritings = {some 0} ∧
    votedAuthors.rows rankedWritings = {some 0, some 1, some 2} := by
  have happend := scopesAppend_rankedAuthors
  have hover : votedAuthors.Over rankedAuthors.table := ⟨rfl, rfl, rfl⟩
  refine ⟨_, happend, hover, rfl, ?_, rfl, rfl, rfl, rfl, rfl, ?_, ?_⟩
  · rw [(narrowByRule_contribution happend).1 rankedRule votedAuthors hover]
    rfl
  · ext key
    exact List.mem_singleton
  · have hkeys : votedAuthors.keys rankedWritings = [some 0, some 1, some 2] := by decide
    ext key
    show key ∈ votedAuthors.keys rankedWritings ↔ _
    rw [hkeys, List.mem_cons, List.mem_cons, List.mem_singleton]
    rfl

end Surface

end

end Sift
