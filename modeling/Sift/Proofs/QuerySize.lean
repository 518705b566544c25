import Sift.Proofs.PlainRules
import Sift.Proofs.RuleBudget

/-!
# The size of queries

What rules select of all rows is as large as the rules are. Each leaf gives one condition, or two for
a range; an inverted leaf is put into a scope of its own, and so is each rule of which one is enough.
Nothing else brings in a condition or a scope, and nothing is written down twice: an inverted leaf
excludes what it selects of all rows, and not of the rows that the rules before it have left. So a
query that is made from rules within the limit of a reader is within twice that limit.
-/

namespace Sift

/-! ## The number of conditions -/

mutual

/-- The number of conditions on a single operand in a condition, also in the scopes inside it. -/
def Condition.atoms : Condition → Nat
  | .compares _ _ _ => 1
  | .isNull _ => 1
  | .contains _ _ => 1
  | .impossible => 1
  | .isAmong _ scope _ => scope.atoms
  | .anyOf members => atomsOf members

/-- The number of conditions on a single operand in a scope, at every depth. -/
def Scope.atoms : Scope → Nat
  | ⟨_, _, _, _, conditions, _, _⟩ => atomsOf conditions

def atomsOf : List Condition → Nat
  | [] => 0
  | condition :: rest => condition.atoms + atomsOf rest

end

/-- The atoms of a scope are those of its conditions. -/
theorem Scope.atoms_eq (scope : Scope) : scope.atoms = atomsOf scope.conditions := by
  cases scope
  rw [atoms]

/-- The atoms of two lists of conditions are counted together. -/
theorem atomsOf_append (first second : List Condition) :
    atomsOf (first ++ second) = atomsOf first + atomsOf second := by
  induction first with
  | nil => exact (Nat.zero_add _).symm
  | cons condition rest ih => rw [List.cons_append, atomsOf, atomsOf, ih, Nat.add_assoc]

mutual

/-- Renaming changes no number of atoms. -/
theorem Condition.atoms_renamed (renames : Renames) : (condition : Condition) →
    (condition.renamed renames).atoms = condition.atoms
  | .compares _ _ _ => by rw [Condition.renamed, Condition.atoms, Condition.atoms]
  | .isNull _ => by rw [Condition.renamed, Condition.atoms, Condition.atoms]
  | .contains _ _ => by rw [Condition.renamed, Condition.atoms, Condition.atoms]
  | .impossible => by rw [Condition.renamed]
  | .isAmong _ _ _ => by rw [Condition.renamed, Condition.atoms, Condition.atoms]
  | .anyOf members => by
    rw [Condition.renamed, Condition.atoms, Condition.atoms, atomsOf_renamedAll renames members]

theorem atomsOf_renamedAll (renames : Renames) : (conditions : List Condition) →
    atomsOf (renamedAll renames conditions) = atomsOf conditions
  | [] => rfl
  | condition :: rest => by
    rw [renamedAll, atomsOf, atomsOf, condition.atoms_renamed renames,
      atomsOf_renamedAll renames rest]

end

namespace Scope

@[simp] theorem atoms_all (table : Table) : (Scope.all table).atoms = 0 := by
  rw [atoms_eq]
  rfl

@[simp] theorem atoms_withoutPage (scope : Scope) : scope.withoutPage.atoms = scope.atoms := by
  rw [atoms_eq, atoms_eq]
  rfl

@[simp] theorem atoms_narrow (scope : Scope) (conditions : List Condition) :
    (scope.narrow conditions).atoms = scope.atoms + atomsOf conditions := by
  rw [atoms_eq, atoms_eq, conditions_narrow, atomsOf_append]

@[simp] theorem atoms_conjoin (scope other : Scope) :
    (scope.conjoin other).atoms = scope.atoms + other.atoms := by
  rw [atoms_eq, atoms_eq, atoms_eq, conditions_conjoin, atomsOf_append]

/-- What comes through a join adds its atoms. -/
@[simp] theorem atoms_conjoinVia (scope : Scope) (join : Join) (related : Scope) :
    (scope.conjoinVia join related).atoms = scope.atoms + related.atoms := by
  have hconditions : (scope.conjoinVia join related).conditions =
      scope.conditions ++ renamedAll (renamesBehind join related) related.conditions := rfl
  rw [atoms_eq, atoms_eq, atoms_eq, hconditions, atomsOf_append, atomsOf_renamedAll]

/-- Excluding a scope adds one membership, which is no atom, and the atoms of the scope. -/
@[simp] theorem atoms_excluding (scope other : Scope) :
    (scope.excluding other).atoms = scope.atoms + other.atoms := by
  rw [excluding, atoms_narrow, atomsOf, atomsOf, Condition.atoms, atoms_withoutPage, Nat.add_zero]

end Scope

theorem Surface.atoms_all (surface : Surface) : surface.all.atoms = 0 :=
  Scope.atoms_all surface.table

/-- A union has the atoms of its branches: the memberships themselves are none. -/
theorem Surface.atoms_union (surface : Surface) (branches : List Scope) :
    (surface.union branches).atoms = atomsOf (branches.flatMap Scope.conditions) := by
  have hmembers : atomsOf
      (branches.map fun branch => .isAmong surface.all.key branch.withoutPage false) =
        atomsOf (branches.flatMap Scope.conditions) := by
    induction branches with
    | nil => rfl
    | cons branch rest ih =>
      rw [List.map_cons, atomsOf, ih, Condition.atoms, Scope.atoms_withoutPage, List.flatMap_cons,
        atomsOf_append, Scope.atoms_eq]
  rw [union, Scope.atoms_narrow, atoms_all, atomsOf, atomsOf, Condition.atoms, hmembers, Nat.add_zero,
    Nat.zero_add]

/-- A union puts every branch inside, beside what was inside the branches. -/
theorem Surface.length_inner_union (surface : Surface) (branches : List Scope) :
    (surface.union branches).inner.length =
      branches.length + (branches.flatMap Scope.inner).length := by
  rw [inner_union]
  induction branches with
  | nil => rfl
  | cons branch rest ih =>
    rw [List.flatMap_cons, List.flatMap_cons, List.length_append, List.length_append, ih,
      List.length_cons, List.length_cons]
    omega

/-- Conjoining many scopes adds up their atoms. -/
theorem Scope.atoms_foldl (scope : Scope) (others : List Scope) :
    (others.foldl conjoin scope).atoms =
      scope.atoms + atomsOf (others.flatMap Scope.conditions) := by
  rw [atoms_eq, conditions_foldl, atomsOf_append, ← scope.atoms_eq]

/-- An operator makes one atom, and a range makes two. -/
theorem Operator.atomsOf_conditions {operator : Operator} {lhs : Operand} {type : Option ColumnType}
    {param : Json} {conditions : List Condition}
    (h : operator.conditions lhs type param = .ok conditions) :
    atomsOf conditions = 1 + if operator = .within then 1 else 0 := by
  have hequality : (equality lhs type param).atoms = 1 := by
    unfold equality
    split
    · rw [Condition.atoms]
    · dsimp only
      split <;> rw [Condition.atoms]
  cases operator with
  | equals =>
    cases h
    rw [atomsOf, hequality]
    rfl
  | within =>
    obtain ⟨⟨low, high⟩, -, h⟩ := bind_eq_ok.mp h
    cases h
    simp [atomsOf, Condition.atoms]
  | contains | atLeast | atMost =>
    cases h
    simp [atomsOf, Condition.atoms]

/-- What a plain filter selects of all rows holds the conditions of its operator. -/
theorem Filter.atoms_narrow_plain {filter : Filter} {operator : Operator} {param : Json}
    {owner : Table} {result : Scope}
    (h : filter.narrow ⟨operator, param, false⟩ (Scope.all owner) = .ok result) :
    result.atoms = 1 + if operator = .within then 1 else 0 := by
  induction filter generalizing owner result with
  | own types target =>
    obtain ⟨conditions, hconditions, h⟩ := bind_eq_ok.mp h
    cases h
    obtain ⟨type, -, hconditions⟩ := bind_eq_ok.mp hconditions
    have hatoms := Operator.atomsOf_conditions hconditions
    exact (Scope.atoms_narrow _ _).trans (by rw [Scope.atoms_all, hatoms, Nat.zero_add])
  | through join related next ih =>
    obtain ⟨matched, hmatched, h⟩ := bind_eq_ok.mp h
    cases h
    exact (Scope.atoms_conjoinVia _ _ _).trans (by rw [Scope.atoms_all, ih hmatched, Nat.zero_add])

/-! ## The size of rules -/

mutual

/-- The number of rules in a tree that stand directly in a list of which one is enough. -/
def Rule.alternatives : Rule → Nat
  | .blank => 0
  | .scope _ _ => 0
  | .leaf _ _ => 0
  | .composite rules .exclusive => alternativesOf rules
  | .composite rules .inclusive => rules.length + alternativesOf rules

def alternativesOf : List Rule → Nat
  | [] => 0
  | rule :: rest => rule.alternatives + alternativesOf rest

end

/-- How many leaves are inverted. -/
def invertedAmong (leaves : List (String × Arguments)) : Nat :=
  leaves.countP fun leaf => leaf.2.invert

/-- How many leaves ask for a range. -/
def rangesAmong (leaves : List (String × Arguments)) : Nat :=
  leaves.countP fun leaf => leaf.2.operator = .within

/-- Inverted leaves are counted list by list. -/
theorem invertedAmong_append (first second : List (String × Arguments)) :
    invertedAmong (first ++ second) = invertedAmong first + invertedAmong second :=
  List.countP_append

theorem rangesAmong_append (first second : List (String × Arguments)) :
    rangesAmong (first ++ second) = rangesAmong first + rangesAmong second :=
  List.countP_append

mutual

/-- A rule has no more leaves than nodes. -/
theorem Rule.length_leaves_le : (rule : Rule) → rule.leaves.length ≤ rule.nodes
  | .blank => Nat.zero_le _
  | .scope _ _ => Nat.zero_le _
  | .leaf _ _ => by rw [Rule.leaves, Rule.nodes, List.length_singleton]
  | .composite rules _ => by
    rw [Rule.leaves, Rule.nodes]
    exact Nat.le_succ_of_le (length_leavesOf_le rules)

theorem length_leavesOf_le : (rules : List Rule) → (leavesOf rules).length ≤ nodesOf rules
  | [] => Nat.zero_le _
  | rule :: rest => by
    rw [leavesOf, nodesOf, List.length_append]
    exact Nat.add_le_add rule.length_leaves_le (length_leavesOf_le rest)

end

mutual

/-- A rule stands in one list, so the alternatives below it are fewer than the rules. -/
theorem Rule.alternatives_lt : (rule : Rule) → rule.alternatives < rule.nodes
  | .blank => by rw [Rule.alternatives, Rule.nodes]; exact Nat.one_pos
  | .scope _ _ => by rw [Rule.alternatives, Rule.nodes]; exact Nat.one_pos
  | .leaf _ _ => by rw [Rule.alternatives, Rule.nodes]; exact Nat.one_pos
  | .composite rules conjunction => by
    have hlist := length_add_alternativesOf_le rules
    cases conjunction <;> rw [Rule.alternatives, Rule.nodes] <;> omega

/-- The members of a list and the alternatives inside them are different nodes, so the nodes bound
both together. -/
theorem length_add_alternativesOf_le : (rules : List Rule) →
    rules.length + alternativesOf rules ≤ nodesOf rules
  | [] => Nat.le_refl _
  | rule :: rest => by
    have hrule := rule.alternatives_lt
    have hrest := length_add_alternativesOf_le rest
    rw [alternativesOf, nodesOf, List.length_cons]
    omega

end

/-! ## Rules on all rows -/

/-- A scope has the size of a rule. -/
structure Rule.Sizes (rule : Rule) (scope : Scope) : Prop where
  inner_eq : scope.inner.length = invertedAmong rule.leaves + rule.alternatives
  atoms_eq : scope.atoms = rule.leaves.length + rangesAmong rule.leaves

/-- Scopes have the sizes of rules together. -/
structure SizesOf (rules : List Rule) (scopes : List Scope) : Prop where
  length_eq : scopes.length = rules.length
  inner_eq : (scopes.flatMap Scope.inner).length =
    invertedAmong (leavesOf rules) + alternativesOf rules
  atoms_eq : atomsOf (scopes.flatMap Scope.conditions) =
    (leavesOf rules).length + rangesAmong (leavesOf rules)

/-- The sizes of a list of rules are those of the first one and of the others. -/
theorem Rule.Sizes.cons {rule : Rule} {rest : List Rule} {scope : Scope} {others : List Scope}
    (hrule : rule.Sizes scope) (hrest : SizesOf rest others) :
    SizesOf (rule :: rest) (scope :: others) where
  length_eq := congrArg (· + 1) hrest.length_eq
  inner_eq := by
    rw [List.flatMap_cons, List.length_append, hrule.inner_eq, hrest.inner_eq, leavesOf,
      invertedAmong_append, alternativesOf]
    omega
  atoms_eq := by
    rw [List.flatMap_cons, atomsOf_append, ← scope.atoms_eq, hrule.atoms_eq, hrest.atoms_eq,
      leavesOf, List.length_append, rangesAmong_append]
    omega

namespace Surface

variable {surface : Surface}

/-- A leaf makes the atoms of its operator, and an inner scope if it is inverted. -/
theorem sizes_leaf {attr : String} {arguments : Arguments} {result : Scope}
    (h : surface.narrowByRule (.leaf attr arguments) surface.all = .ok result) :
    (Rule.leaf attr arguments).Sizes result := by
  obtain ⟨operator, param, invert⟩ := arguments
  obtain ⟨filter, -, hnarrow⟩ := narrowByAttribute_eq_ok.mp h
  cases invert with
  | false =>
    have hinner := Filter.inner_narrow_plain hnarrow
    have hatoms := Filter.atoms_narrow_plain hnarrow
    refine ⟨by rw [hinner]; rfl, ?_⟩
    rw [hatoms, Rule.leaves, rangesAmong, List.countP_singleton]
    simp
  | true =>
    -- what is excluded is selected of all rows, in a scope of its own
    rw [Filter.narrow_inverted, map_eq_ok] at hnarrow
    obtain ⟨matched, hmatched, rfl⟩ := hnarrow
    have hinner := Filter.inner_narrow_plain hmatched
    have hatoms := Filter.atoms_narrow_plain hmatched
    refine ⟨by rw [Scope.inner_excluding, hinner, inner_all]; rfl, ?_⟩
    rw [Scope.atoms_excluding, hatoms, atoms_all, Rule.leaves, rangesAmong,
      List.countP_singleton]
    simp

theorem sizes_all : Rule.blank.Sizes surface.all :=
  ⟨by rw [inner_all]; rfl, surface.atoms_all⟩

/-- Conjoining with all rows changes no size. -/
theorem sizes_conjoin {rule : Rule} {scope : Scope} (h : rule.Sizes scope) :
    rule.Sizes (surface.all.conjoin scope) where
  inner_eq := by rw [Scope.inner_conjoin, inner_all, List.nil_append, h.inner_eq]
  atoms_eq := by rw [Scope.atoms_conjoin, atoms_all, Nat.zero_add, h.atoms_eq]

/-- The combination of rules has the size of a composite of them, in either conjunction. -/
theorem sizes_combine {rules : List Rule} (hrules : CallNoScope rules)
    (hbranches : ∀ branches, surface.branches rules = .ok branches → SizesOf rules branches)
    {conjunction : Conjunction} {combined : Scope}
    (h : surface.combine rules conjunction = .ok combined) :
    (Rule.composite rules conjunction).Sizes combined := by
  cases conjunction with
  | exclusive =>
    -- the branches are conjoined, so nothing is added to what is in them
    rw [combine, narrowByAll_eq_foldl_branches hrules, map_eq_ok] at h
    obtain ⟨branches, hok, rfl⟩ := h
    have hsizes := hbranches branches hok
    refine ⟨?_, ?_⟩
    · rw [Scope.inner_foldl, inner_all, List.nil_append, hsizes.inner_eq, Rule.leaves,
        Rule.alternatives]
    · rw [Scope.atoms_foldl, atoms_all, Nat.zero_add, hsizes.atoms_eq, Rule.leaves]
  | inclusive =>
    by_cases hnil : rules = []
    · rw [hnil] at h ⊢
      cases h
      exact ⟨sizes_all.inner_eq, sizes_all.atoms_eq⟩
    · -- each branch is one inner scope more
      obtain ⟨branches, hok, rfl⟩ := (combine_inclusive_eq_ok hnil).mp h
      have hsizes := hbranches branches hok
      refine ⟨?_, ?_⟩
      · rw [length_inner_union, hsizes.length_eq, hsizes.inner_eq, Rule.leaves, Rule.alternatives]
        omega
      · rw [atoms_union, hsizes.atoms_eq, Rule.leaves]

end Surface

mutual

/-- What a rule leaves of all rows has the size of the rule. -/
theorem Surface.sizes_narrowByRule {surface : Surface} : (rule : Rule) → rule.CallsNoScope →
    ∀ {result : Scope}, surface.narrowByRule rule surface.all = .ok result → rule.Sizes result
  | .blank, _, _, h => by
    cases h
    exact Surface.sizes_all
  | .scope _ _, hrule, _, _ => hrule.elim
  | .leaf _ _, _, _, h => Surface.sizes_leaf h
  | .composite rules conjunction, hrules, _, h => by
    rw [Surface.narrowByRule_composite, map_eq_ok] at h
    obtain ⟨combined, hcombined, rfl⟩ := h
    have hsizes : (Rule.composite rules conjunction).Sizes combined :=
      Surface.sizes_combine hrules (fun _ => Surface.sizes_branches rules hrules) hcombined
    exact Surface.sizes_conjoin hsizes

/-- Every branch of a union has the size of its rule; by recursion on the list, together with the
statement about a single rule. -/
theorem Surface.sizes_branches {surface : Surface} : (rules : List Rule) → CallNoScope rules →
    ∀ {branches : List Scope}, surface.branches rules = .ok branches → SizesOf rules branches
  | [], _, _, h => by
    cases h
    exact ⟨rfl, rfl, rfl⟩
  | rule :: rest, ⟨hrule, hrest⟩, _, h => by
    obtain ⟨branch, hbranch, h⟩ := bind_eq_ok.mp h
    obtain ⟨others, hothers, h⟩ := bind_eq_ok.mp h
    cases h
    have hfirst := Surface.sizes_narrowByRule rule hrule hbranch
    exact hfirst.cons (Surface.sizes_branches rest hrest hothers)

end

/-- The rules that a fresh reader gives are within its limit. -/
theorem RuleReader.nodesOf_le_of_answer {reader : RuleReader} {submission : Submission}
    {rules : List Rule} (h : (reader.answer submission).result = .ok rules) :
    nodesOf rules ≤ reader.limits.rules := by
  cases submission with
  | value value => exact ((reader.reads_read value).result_eq_ok_iff.mp h).2
  | text decode text => exact ((reader.reads_readTextWith decode text).result_eq_ok_iff.mp h).2

namespace Surface

variable {surface : Surface}

/-- The scope that rules select has the size of the composite of these rules. -/
theorem sizes_narrowByRules {rules : List Rule} (hrules : CallNoScope rules)
    {conjunction : Conjunction} {result : Scope}
    (h : surface.narrowByRules surface.all rules conjunction = .ok result) :
    (Rule.composite rules conjunction).Sizes result := by
  rcases narrowByRules_eq_ok.mp h with ⟨rfl, rfl⟩ | ⟨-, combined, hcombined, rfl⟩
  · cases conjunction <;> exact ⟨sizes_all.inner_eq, sizes_all.atoms_eq⟩
  · exact sizes_conjoin (sizes_combine hrules (fun _ => sizes_branches rules hrules) hcombined)

/-- What rules that call no named scope leave of all rows holds one scope for each inverted leaf and
for each rule in a list of which one is enough, and one condition for each leaf and one more for each
range. If a reader with the limits of the surface gave the rules, both are within twice its limit. -/
theorem size_narrowByRules {rules : List Rule} (hrules : CallNoScope rules)
    {conjunction : Conjunction} {result : Scope}
    (h : surface.narrowByRules surface.all rules conjunction = .ok result) :
    result.inner.length =
        invertedAmong (leavesOf rules) + (Rule.composite rules conjunction).alternatives ∧
      result.atoms = (leavesOf rules).length + rangesAmong (leavesOf rules) ∧
      ∀ submission, (surface.reader.answer submission).result = .ok rules →
        result.inner.length ≤ 2 * surface.limits.rules ∧
          result.atoms ≤ 2 * surface.limits.rules := by
  have hsizes := sizes_narrowByRules hrules h
  have hinner : result.inner.length =
      invertedAmong (leavesOf rules) + (Rule.composite rules conjunction).alternatives :=
    hsizes.inner_eq
  have hatoms : result.atoms = (leavesOf rules).length + rangesAmong (leavesOf rules) :=
    hsizes.atoms_eq
  refine ⟨hinner, hatoms, fun submission hanswer => ?_⟩
  have hlimit : nodesOf rules ≤ surface.limits.rules := RuleReader.nodesOf_le_of_answer hanswer
  have hleaves := length_leavesOf_le rules
  have hinverted : invertedAmong (leavesOf rules) ≤ (leavesOf rules).length := List.countP_le_length
  have hranges : rangesAmong (leavesOf rules) ≤ (leavesOf rules).length := List.countP_le_length
  have halternatives := (Rule.composite rules conjunction).alternatives_lt
  rw [Rule.nodes] at halternatives
  omega

/-! ### Visits by nested rules -/

/-- Alternatives inside a list of alternatives, with inverted leaves, a range and a blank rule. -/
def nestedRules : List Rule :=
  [.composite [.leaf "shop_offers_price" ⟨.within, .array [.number (.integer 2),
      .number (.integer 9)], true⟩, .blank] .inclusive,
    .composite [.leaf "shop_city_size" ⟨.equals, .null, true⟩,
      .leaf "shop_offers_total" ⟨.contains, .string "$1", false⟩] .exclusive]

/-- The same rules as they are submitted. -/
def nestedElements : Json :=
  .array [.object [("conjunction", .string "inclusive"), ("rules", .array [
      .object [("column", .string "shop_offers_price"), ("operator", .string "within"),
        ("param", .array [.number (.integer 2), .number (.integer 9)]), ("invert", .bool true)],
      .null])],
    .object [("rules", .array [
      .object [("column", .string "shop_city_size"), ("operator", .string "is"),
        ("param", .null), ("invert", .bool true)],
      .object [("column", .string "shop_offers_total"), ("operator", .string "containing"),
        ("param", .string "$1")]])]]

/-- Two leaves are inverted and four rules are alternatives; of the three leaves one is a range. -/
theorem size_narrowByRules_nested : ∃ result,
    CallNoScope nestedRules ∧
    visits.narrowByRules visits.all nestedRules .inclusive = .ok result ∧
    (visits.reader.answer (.value nestedElements)).result = .ok nestedRules ∧
    result.inner.length = 6 ∧ result.atoms = 4 ∧
    result.inner.length ≤ 2 * visits.limits.rules ∧ result.atoms ≤ 2 * visits.limits.rules := by
  have hrules : CallNoScope nestedRules := ⟨⟨trivial, trivial, trivial⟩, ⟨trivial, trivial, trivial⟩,
    trivial⟩
  have h : visits.narrowByRules visits.all nestedRules .inclusive = .ok _ := rfl
  have hanswer : (visits.reader.answer (.value nestedElements)).result = .ok nestedRules := rfl
  obtain ⟨hinner, hatoms, hlimits⟩ := size_narrowByRules hrules h
  exact ⟨_, hrules, h, hanswer, hinner, hatoms, hlimits _ hanswer⟩

end Surface

end Sift
