import Sift.Proofs.BoundValues
import Sift.Proofs.Contributions

/-!
# Pages

A page is taken from the rows that are left in the end. Filters, and rules that call no named scope,
set no page of their own, and what an inclusive list takes from its rules it takes without their
pages; so such rules leave the page of the base as it is. In the statement for a scope its own page is
the last clause, and the pages of scopes inside it are not written at all.
-/

namespace Sift

/-- The scope with another page. -/
def Scope.withPage (scope : Scope) (limit offset : Option Nat) : Scope :=
  { scope with limit := limit, offset := offset }

mutual

/-- Two conditions that differ in the pages of the scopes inside them, at any depth, at most. -/
inductive Condition.Repaged : Condition → Condition → Prop
  | same (condition : Condition) : Condition.Repaged condition condition
  | isAmong {scope other : Scope} (lhs : Operand) (negated : Bool) (limit offset : Option Nat)
      (h : Scope.RepagedInside scope other) :
    Condition.Repaged (.isAmong lhs scope negated)
      (.isAmong lhs (other.withPage limit offset) negated)
  | anyOf {members others : List Condition} (h : AllRepaged members others) :
    Condition.Repaged (.anyOf members) (.anyOf others)

/-- Two scopes that differ in the pages of the scopes inside them at most. -/
inductive Scope.RepagedInside : Scope → Scope → Prop
  | conditions (scope : Scope) {others : List Condition}
      (h : AllRepaged scope.conditions others) :
    Scope.RepagedInside scope { scope with conditions := others }

/-- Two lists of conditions that differ in the pages of the scopes inside them at most. -/
inductive AllRepaged : List Condition → List Condition → Prop
  | nil : AllRepaged [] []
  | cons {first other : Condition} {rest others : List Condition}
      (hfirst : Condition.Repaged first other) (hrest : AllRepaged rest others) :
    AllRepaged (first :: rest) (other :: others)

end

/-! ## Statements -/

section

variable (database : Database)

/-- A subquery is made from a table, joins and conditions: there is no page in it. -/
theorem Scope.subquery_eq (scope : Scope) :
    scope.subquery database =
      selection "SELECT" scope.table scope.primaryKey scope.joins ++
        whereClause (conditionPieces database scope.conditions) := by
  cases scope
  rw [subquery]

/-- So a page makes no difference to a subquery. -/
theorem Scope.subquery_withPage (scope : Scope) (limit offset : Option Nat) :
    (scope.withPage limit offset).subquery database = scope.subquery database := by
  rw [subquery_eq, subquery_eq]
  rfl

mutual

/-- Conditions that differ in pages of inner scopes are written alike. The three statements follow
the three relations. -/
theorem Condition.Repaged.pieces_eq : {condition other : Condition} → condition.Repaged other →
    condition.pieces database = other.pieces database
  | _, _, .same _ => rfl
  | _, _, .isAmong lhs negated limit offset h => by
    rw [Condition.pieces, Condition.pieces, Scope.subquery_withPage,
      Scope.RepagedInside.subquery_eq h]
  | _, _, .anyOf .nil => rfl
  | _, _, .anyOf (.cons hfirst hrest) => by
    rw [Condition.pieces, Condition.pieces, Condition.Repaged.pieces_eq hfirst,
      AllRepaged.conditionPieces_eq hrest]

theorem Scope.RepagedInside.subquery_eq : {scope other : Scope} → scope.RepagedInside other →
    scope.subquery database = other.subquery database
  | _, _, .conditions scope h => by
    rw [Scope.subquery_eq, Scope.subquery_eq, AllRepaged.conditionPieces_eq h]

theorem AllRepaged.conditionPieces_eq : {conditions others : List Condition} →
    AllRepaged conditions others →
    conditionPieces database conditions = conditionPieces database others
  | _, _, .nil => rfl
  | _, _, .cons hfirst hrest => by
    rw [conditionPieces, conditionPieces, Condition.Repaged.pieces_eq hfirst,
      AllRepaged.conditionPieces_eq hrest]

end

namespace Scope

/-- Scopes that differ in pages of inner scopes have one statement. -/
theorem RepagedInside.statement_eq : {scope other : Scope} → scope.RepagedInside other →
    scope.statement database = other.statement database
  | _, _, .conditions scope h => by
    rw [statement, statement, h.conditionPieces_eq]
    rfl

/-- The pieces of a statement that select the page. -/
def pagePieces (scope : Scope) : List Piece :=
  (database.pageClause scope.limit scope.offset).toList.map fun clause => .text (" " ++ clause)

/-- The page is written behind everything else. -/
theorem statement_eq_withoutPage (scope : Scope) :
    scope.statement database =
      scope.withoutPage.statement database ++ scope.pagePieces database := by
  have horder : scope.orderAndPage database =
      scope.withoutPage.orderAndPage database ++ scope.pagePieces database := by
    unfold orderAndPage pagePieces
    cases database.pageClause scope.limit scope.offset <;> rfl
  rw [statement, horder, ← List.append_assoc]
  rfl

/-- The clause of the page has no parameter, so its text does not depend on how many come before it.
-/
theorem renderFrom_pagePieces (scope : Scope) (next : Nat) :
    Piece.renderFrom database.placeholder next (scope.pagePieces database) =
      (database.pageClause scope.limit scope.offset).elim "" (" " ++ ·) := by
  unfold pagePieces
  cases database.pageClause scope.limit scope.offset with
  | none => rfl
  | some clause => exact String.append_empty

/-- The clause of the page has no values to bind. -/
theorem values_pagePieces (scope : Scope) : Piece.values (scope.pagePieces database) = [] := by
  unfold pagePieces
  cases database.pageClause scope.limit scope.offset <;> rfl

end Scope

end

/-! ## Rules -/

/-- A result with the page of a scope. -/
structure Scope.SamePage (result scope : Scope) : Prop where
  limit_eq : result.limit = scope.limit
  offset_eq : result.offset = scope.offset

namespace Scope

variable {scope other : Scope}

/-- Conjoining with a scope without page keeps the page. -/
theorem SamePage.conjoin (h : other.SamePage scope.cleared) :
    (scope.conjoin other).SamePage scope where
  limit_eq := congrArg (·.or scope.limit) h.limit_eq
  offset_eq := congrArg (·.or scope.offset) h.offset_eq

/-- If the second scope has no page, it does not matter whether the first one gets its page before
or afterwards. -/
theorem SamePage.conjoin_withPage (h : other.SamePage scope.cleared) (limit offset : Option Nat) :
    (scope.withPage limit offset).conjoin other = (scope.conjoin other).withPage limit offset := by
  rw [Scope.conjoin, Scope.conjoin, h.limit_eq, h.offset_eq]
  rfl

end Scope

/-- No filter touches the page of the scope that it narrows. -/
theorem Filter.samePage_of_narrow {filter : Filter} {arguments : Arguments} {scope result : Scope}
    (h : filter.narrow arguments scope = .ok result) : result.SamePage scope := by
  cases filter with
  | own types target =>
    obtain ⟨conditions, -, h⟩ := bind_eq_ok.mp h
    split at h <;> cases h <;> exact ⟨rfl, rfl⟩
  | through join related next =>
    obtain ⟨matched, -, h⟩ := bind_eq_ok.mp h
    split at h <;> cases h <;> exact ⟨rfl, rfl⟩

namespace Surface

variable {surface : Surface}

/-- What rules combine to has no page: the exclusive way by assumption, the inclusive one because a
union asks for the rows of its branches only. -/
theorem samePage_of_combine {rules : List Rule} {conjunction : Conjunction} {combined : Scope}
    (hall : conjunction = .exclusive → ∀ result, surface.narrowByAll rules surface.all = .ok result →
      result.SamePage surface.all)
    (h : surface.combine rules conjunction = .ok combined) : combined.SamePage surface.all := by
  cases conjunction with
  | exclusive => exact hall rfl combined h
  | inclusive =>
    cases rules with
    | nil =>
      cases h
      exact ⟨rfl, rfl⟩
    | cons first rest =>
      obtain ⟨branches, -, h⟩ := bind_eq_ok.mp h
      cases h
      exact ⟨rfl, rfl⟩

end Surface

mutual

/-- A rule that calls no named scope leaves the page as it is. -/
theorem Surface.samePage_of_narrowByRule {surface : Surface} : (rule : Rule) → rule.CallsNoScope →
    ∀ {scope result : Scope}, surface.narrowByRule rule scope = .ok result → result.SamePage scope
  | .blank, _, _, _, h => by
    cases h
    exact ⟨rfl, rfl⟩
  | .scope _ _, hrule, _, _, _ => hrule.elim
  | .leaf _ _, _, _, _, h => by
    obtain ⟨filter, -, h⟩ := narrowByAttribute_eq_ok.mp h
    exact Filter.samePage_of_narrow h
  | .composite rules _, hrules, _, _, h => by
    rw [Surface.narrowByRule_composite, map_eq_ok] at h
    obtain ⟨combined, hcombined, rfl⟩ := h
    -- the rules inside start from all rows, which have no page that could get into the scope
    have hpage : combined.SamePage surface.all :=
      Surface.samePage_of_combine (fun _ _ => samePage_of_narrowByAll rules hrules) hcombined
    exact Scope.SamePage.conjoin ⟨hpage.limit_eq, hpage.offset_eq⟩

/-- Rules without named scopes leave the page as it is, whether they stand alone or in a composite.
-/
theorem Surface.samePage_of_narrowByAll {surface : Surface} : (rules : List Rule) →
    CallNoScope rules → ∀ {scope result : Scope},
      surface.narrowByAll rules scope = .ok result → result.SamePage scope
  | [], _, _, _, h => by
    cases h
    exact ⟨rfl, rfl⟩
  | rule :: rest, ⟨hrule, hrest⟩, _, _, h => by
    obtain ⟨narrowed, hnarrowed, h⟩ := bind_eq_ok.mp h
    have hfirst := Surface.samePage_of_narrowByRule rule hrule hnarrowed
    have hothers := Surface.samePage_of_narrowByAll rest hrest h
    exact ⟨hothers.limit_eq.trans hfirst.limit_eq, hothers.offset_eq.trans hfirst.offset_eq⟩

end

namespace Surface

/-- A base with a page gives what the base without it gives, with the page. -/
theorem narrowByRules_withPage (surface : Surface) {rules : List Rule}
    {conjunction : Conjunction} (hrules : CallNoScope rules ∨ conjunction = .inclusive) (base : Scope)
    (limit offset : Option Nat) :
    surface.narrowByRules (base.withPage limit offset) rules conjunction =
      (surface.narrowByRules base rules conjunction).map (·.withPage limit offset) := by
  rw [narrowByRules, narrowByRules]
  split
  · rfl
  · -- the base is conjoined in the end, so its page meets only that of what is combined
    cases hcombined : surface.combine rules conjunction with
    | error rejection => rfl
    | ok combined =>
      have hpage : combined.SamePage surface.all := by
        refine samePage_of_combine (fun hexclusive _ => ?_) hcombined
        rcases hrules with hrules | hinclusive
        · exact samePage_of_narrowByAll rules hrules
        · cases hexclusive.symm.trans hinclusive
      exact congrArg Except.ok (Scope.SamePage.conjoin_withPage
        ⟨hpage.limit_eq, hpage.offset_eq⟩ limit offset)

end Surface

/-- Rules that call no named scope, and inclusive rules that do, filter a base with a page as they
filter it without one, and the page is taken of the result. In statements, the pages of scopes inside
a scope leave no trace, and the scope's own page is a clause behind all others. -/
theorem pages_taken_last :
    (∀ (surface : Surface) (base : Scope) (limit offset : Option Nat) (rules : List Rule)
        (conjunction : Conjunction),
      CallNoScope rules ∨ conjunction = .inclusive →
      surface.narrowByRules (base.withPage limit offset) rules conjunction =
        (surface.narrowByRules base rules conjunction).map (·.withPage limit offset)) ∧
    (∀ (database : Database) (scope other : Scope), scope.RepagedInside other →
      scope.sql database = other.sql database ∧ scope.params database = other.params database) ∧
    ∀ (database : Database) (scope : Scope),
      scope.sql database = scope.withoutPage.sql database ++
        (database.pageClause scope.limit scope.offset).elim "" (" " ++ ·) ∧
      scope.params database = scope.withoutPage.params database := by
  refine ⟨fun surface base limit offset rules conjunction hrules => ?_,
    fun database scope other hrepaged => ?_, fun database scope => ?_⟩
  · exact surface.narrowByRules_withPage hrules base limit offset
  · have hstatement := hrepaged.statement_eq database
    exact ⟨congrArg (Piece.render database.placeholder) hstatement,
      congrArg Piece.values hstatement⟩
  · have hstatement := scope.statement_eq_withoutPage database
    constructor
    · rw [Scope.sql, Piece.render, hstatement, Piece.renderFrom_append,
        scope.renderFrom_pagePieces]
      rfl
    · rw [Scope.params, hstatement, Piece.values_append, scope.values_pagePieces, List.append_nil]
      rfl

/-! ### Pages of authors -/

namespace Surface

/-- The first author, who is asked for with a limit, or those whose posts have few votes. -/
def firstOrFewVotes : List Rule :=
  [.scope "first" .null, .leaf "posts_votes" ⟨.atMost, .number (.integer 2), false⟩]

/-- Authors among the others, the first of whom may be left out on either level. -/
def otherAuthors (inner outer : Option Nat) : Scope :=
  authors.all.narrow [.anyOf [.impossible, .isAmong authors.all.key
    ((authors.all.narrow [.isAmong authors.all.key (authors.all.withPage none inner) true]).withPage
      none outer) false]]

/-- Three authors of posts with five votes, the second of whom has a post with one vote too. -/
def pagedWritings : Data Nat :=
  .ofTables [
    ("authors", [[("id", 1)], [("id", 2)], [("id", 3)]]),
    ("posts", [
      [("id", 1), ("author_id", 1), ("votes", 5)],
      [("id", 2), ("author_id", 2), ("votes", 5)],
      [("id", 3), ("author_id", 2), ("votes", 1)],
      [("id", 4), ("author_id", 3), ("votes", 5)]])]

/-- Pages on two levels inside are the only difference between these scopes. -/
theorem repagedInside_otherAuthors (inner outer : Option Nat) :
    (otherAuthors none none).RepagedInside (otherAuthors inner outer) := by
  have hinner : Condition.Repaged (.isAmong authors.all.key (authors.all.withPage none none) true)
      (.isAmong authors.all.key (authors.all.withPage none inner) true) :=
    .isAmong authors.all.key true none inner (.conditions (authors.all.withPage none none) .nil)
  exact .conditions _ (.cons (.anyOf (.cons (.same _) (.cons
    (.isAmong authors.all.key false none outer (.conditions _ (.cons hinner .nil))) .nil))) .nil)

/-- The limit that the named scope sets is not kept, and the page of the base is; the pages on both
inner levels are not written. Two of the authors with voted posts are selected, one by each rule, and
the third one by neither. -/
theorem pages_taken_last_authors : ∃ result,
    rankedAuthors.narrowByRules votedAuthors firstOrFewVotes .inclusive = .ok result ∧
    result.conditions =
      [.compares (.column ⟨"posts", "votes"⟩) .equal (.number (.integer 5)),
        .anyOf [
          .isAmong (.column ⟨"authors", "id"⟩) (authors.all.narrow
            [.compares (.column ⟨"authors", "id"⟩) .atMost (.number (.integer 1))]) false,
          .isAmong (.column ⟨"authors", "id"⟩) (authors.all.conjoinVia
            (authored.join authors.table) (posts.all.narrow
              [.compares (.column ⟨"posts", "votes"⟩) .atMost (.number (.integer 2))])) false]] ∧
    some 1 ∈ result.rows pagedWritings ∧ some 2 ∈ result.rows pagedWritings ∧
    some 3 ∉ result.rows pagedWritings ∧ some 3 ∈ votedAuthors.rows pagedWritings ∧
    rankedAuthors.narrowByRules (votedAuthors.withPage (some 3) (some 1)) firstOrFewVotes
      .inclusive = .ok (result.withPage (some 3) (some 1)) ∧
    (result.withPage (some 3) (some 1)).sql .sqlite = result.sql .sqlite ++ " LIMIT 3 OFFSET 1" ∧
    (otherAuthors none none).RepagedInside (otherAuthors (some 1) (some 2)) ∧
    (otherAuthors none none).sql .postgres = (otherAuthors (some 1) (some 2)).sql .postgres ∧
    (otherAuthors none none).sql .postgres =
      "SELECT DISTINCT authors.id FROM authors WHERE (1=0 OR authors.id IN (" ++
        "SELECT authors.id FROM authors WHERE authors.id NOT IN (" ++
          "SELECT authors.id FROM authors))) ORDER BY authors.id" := by
  obtain ⟨hrules, hinside, hpage⟩ := pages_taken_last
  have hresult : rankedAuthors.narrowByRules votedAuthors firstOrFewVotes .inclusive =
      .ok _ := rfl
  have hpaged := hrules rankedAuthors votedAuthors (some 3) (some 1) firstOrFewVotes .inclusive
    (Or.inr rfl)
  have hrepaged := repagedInside_otherAuthors (some 1) (some 2)
  rw [hresult] at hpaged
  exact ⟨_, hresult, rfl, by decide, by decide, by decide, by decide, hpaged, (hpage .sqlite _).1,
    hrepaged, (hinside .postgres _ _ hrepaged).1, by decide +kernel⟩

end Surface

end Sift
