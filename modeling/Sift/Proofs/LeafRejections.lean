import Sift.Proofs.BoundValues
import Sift.Proofs.Contributions
import Sift.Proofs.HiddenScopes
import Sift.Proofs.RuleGrammar

/-!
# What rules are rejected for

A value that stands for no rules is rejected before anything is filtered. Rules that are read and call
no named scope are rejected for a leaf: the first one, from left to right through all composites, that
would be rejected if it were applied to all rows on its own. That it is inverted, how the rules around
it combine, how deep it is nested and what is filtered makes no difference.

The reason is that every way to combine rules takes them from left to right and stops at the first
rejection, and that a filter looks at the scope that it narrows for its model only. So, the resulting
scope forgotten, filtering by a rule tree is checking its leaves one after the other.
-/

namespace Sift

/-! ## Calls of named scopes -/

/-- In an array of rules, at any depth, an object names a scope that rules may call. -/
inductive RuleReader.RefersToScope (reader : RuleReader) : Json → Prop
  | element {elements : List Json} {members : Keyed Json} {name : String}
      (hmem : .object members ∈ elements)
      (hcolumn : members.lookup "column" = some (.string name))
      (hallowed : name ∈ reader.allowedScopes) : RefersToScope reader (.array elements)
  | nested {elements : List Json} {members : Keyed Json} {value : Json}
      (hmem : .object members ∈ elements) (hrules : members.lookup "rules" = some value)
      (h : RefersToScope reader value) : RefersToScope reader (.array elements)

/-- An array refers to no named scope if no object in it calls one or holds rules that refer to one.
-/
theorem RuleReader.not_refersToScope {reader : RuleReader} {elements : List Json}
    (h : ∀ members, .object members ∈ elements → reader.CallsNone members ∧
      ∀ value, members.lookup "rules" = some value → ¬reader.RefersToScope value) :
    ¬reader.RefersToScope (.array elements) := by
  intro hrefers
  cases hrefers with
  | element hmem hcolumn hallowed => exact (h _ hmem).1 _ hcolumn hallowed
  | nested hmem hrules hnested => exact (h _ hmem).2 _ hrules hnested

mutual

/-- An element of an array without calls of named scopes stands for a rule without them. -/
theorem RuleReader.Denotes.callsNoScope {reader : RuleReader} : (rule : Rule) →
    ∀ {depth : Nat} {element : Json} {elements : List Json}, reader.Denotes depth element rule →
      element ∈ elements → ¬reader.RefersToScope (.array elements) → rule.CallsNoScope
  | .blank, _, _, _, _, _, _ => trivial
  | .leaf _ _, _, _, _, _, _, _ => trivial
  | .scope _ _, _, _, _, h, hmem, hnone => by
    cases h with
    | scope hcolumn hallowed => exact absurd (.element hmem hcolumn hallowed) hnone
  | .composite rules _, _, _, _, h, hmem, hnone => by
    cases h with
    | composite _ hrules _ _ hnested =>
      have hinner : ¬reader.RefersToScope _ := fun hrefers => hnone (.nested hmem hrules hrefers)
      cases hnested with
      | array helements =>
        exact RuleReader.DenotesEach.callNoScope rules helements (fun _ h => h) hinner

theorem RuleReader.DenotesEach.callNoScope {reader : RuleReader} : (rules : List Rule) →
    ∀ {depth : Nat} {part elements : List Json}, reader.DenotesEach depth part rules →
      part ⊆ elements → ¬reader.RefersToScope (.array elements) → CallNoScope rules
  | [], _, _, _, _, _, _ => trivial
  | rule :: rest, _, _, _, h, hsubset, hnone => by
    cases h with
    | cons hfirst hrest =>
      obtain ⟨hmem, hothers⟩ := List.cons_subset.mp hsubset
      exact ⟨RuleReader.Denotes.callsNoScope rule hfirst hmem hnone,
        RuleReader.DenotesEach.callNoScope rest hrest hothers hnone⟩

end

/-- What is read from a value that refers to no named scope calls none. -/
theorem RuleReader.callNoScope_of_read {reader : RuleReader} {value : Json} {rules : List Rule}
    (hnone : ¬reader.RefersToScope value) (h : (reader.read value).result = .ok rules) :
    CallNoScope rules := by
  obtain ⟨hdenotes, -⟩ := ((reader.result_read value).1 rules).mp h
  cases hdenotes with
  | array helements => exact helements.callNoScope rules (fun _ h => h) hnone

/-! ## Verdicts -/

/-- An outcome without its result: nothing, or the rejection. -/
def verdict {α : Type} (outcome : Except Rejection α) : Except Rejection Unit :=
  outcome.map fun _ => ()

/-- A rejection for what a leaf is aimed at or for what it compares it with. -/
inductive Rejection.ConcernsLeaf : Rejection → Prop
  | unfilterable (name : String) : ConcernsLeaf (.unfilterable name)
  | mismatch (operation : String) (type : ColumnType) : ConcernsLeaf (.mismatch operation type)
  | badParam (fault : ParamFault) : ConcernsLeaf (.badParam fault)

/-- What comes of a leaf on its own, applied to all rows and not inverted. -/
def Surface.tryLeaf (surface : Surface) (leaf : String × Arguments) : Except Rejection Unit :=
  verdict (surface.narrowByRules surface.all [.leaf leaf.1 leaf.2.plain] .exclusive)

section

variable {α β : Type}

/-- A verdict does not see what a success gives. -/
theorem verdict_map (outcome : Except Rejection α) (f : α → β) :
    verdict (outcome.map f) = verdict outcome := by
  cases outcome <;> rfl

/-- A verdict keeps the rejection. -/
theorem verdict_eq_error {outcome : Except Rejection α} {rejection : Rejection} :
    verdict outcome = .error rejection ↔ outcome = .error rejection :=
  map_eq_error

end

/-- The leaves of a list are checked rule by rule, from left to right. -/
theorem leavesOf_forM_cons (check : String × Arguments → Except Rejection Unit) (rule : Rule)
    (rest : List Rule) :
    (leavesOf (rule :: rest)).forM check =
      rule.leaves.forM check >>= fun _ => (leavesOf rest).forM check :=
  List.forM_append

/-! ## One leaf -/

/-- An operator is rejected for its parameter alone. -/
theorem Operator.concernsLeaf_of_conditions {operator : Operator} {lhs : Operand}
    {type : Option ColumnType} {param : Json} {rejection : Rejection}
    (h : operator.conditions lhs type param = .error rejection) : rejection.ConcernsLeaf := by
  cases operator with
  | within =>
    rcases bind_eq_error.mp h with h | ⟨_, -, h⟩
    · unfold Bounds.ofParam at h
      split at h <;> cases h
      exact .badParam _
    · cases h
  | equals | contains | atLeast | atMost => cases h

/-- A target is rejected if it has no type or a type that the operator does not apply to. -/
theorem Target.concernsLeaf_of_type {types : ColumnTypes} {model : String} {operator : Operator}
    {target : Target} {rejection : Rejection}
    (h : target.type types model operator = .error rejection) : rejection.ConcernsLeaf := by
  cases target with
  | expression sql => cases h
  | column name =>
    unfold Target.type at h
    dsimp only at h
    split at h
    · cases h
      exact .unfilterable _
    · split at h <;> cases h
      exact .mismatch _ _

/-- A filter is rejected for its last target and its arguments, however many associations it passes.
-/
theorem Filter.concernsLeaf_of_narrow {filter : Filter} {arguments : Arguments} {scope : Scope}
    {rejection : Rejection} (h : filter.narrow arguments scope = .error rejection) :
    rejection.ConcernsLeaf := by
  induction filter generalizing arguments scope with
  | own types target =>
    rcases bind_eq_error.mp h with h | ⟨_, -, h⟩
    · rcases bind_eq_error.mp h with h | ⟨_, -, h⟩
      · exact Target.concernsLeaf_of_type h
      · exact Operator.concernsLeaf_of_conditions h
    · split at h <;> cases h
  | through join related next ih =>
    rcases bind_eq_error.mp h with h | ⟨_, -, h⟩
    · exact ih h
    · split at h <;> cases h

/-- A filter is rejected for its arguments, inverted or not, whatever scope of the table it
narrows. -/
theorem Filter.verdict_narrow (filter : Filter) (arguments : Arguments) {table : Table}
    {scope : Scope} (hscope : scope.Over table) :
    verdict (filter.narrow arguments scope) =
      verdict (filter.narrow arguments.plain (Scope.all table)) := by
  obtain ⟨operator, param, invert⟩ := arguments
  cases invert with
  | false => rw [filter.narrow_eq_conjoin hscope, verdict_map]; rfl
  | true => rw [filter.narrow_inverted, verdict_map, hscope.cleared_eq]; rfl

namespace Surface

variable {surface : Surface}

/-- Whether a filter is rejected depends neither on the scope that it narrows nor on inversion. -/
theorem verdict_narrowBy (surface : Surface) (name : String) (arguments : Arguments)
    {scope : Scope} (hscope : scope.Over surface.table) :
    verdict (surface.narrowBy name arguments scope) =
      verdict (surface.narrowBy name arguments.plain surface.all) := by
  unfold narrowBy
  cases surface.filter? name with
  | none => rfl
  | some filter => exact filter.verdict_narrow arguments hscope

/-- Trying a leaf is trying its plain form on all rows. -/
theorem tryLeaf_eq (surface : Surface) (attr : String) (arguments : Arguments) :
    surface.tryLeaf (attr, arguments) =
      verdict (surface.narrowByAttribute attr arguments.plain surface.all) := by
  rw [tryLeaf, narrowByRules_exclusive, verdict_map, ← combine, combine_singleton, narrowByRule]

/-- A leaf that is rejected is rejected for a reason of its own. -/
theorem concernsLeaf_of_tryLeaf {leaf : String × Arguments} {rejection : Rejection}
    (h : surface.tryLeaf leaf = .error rejection) : rejection.ConcernsLeaf := by
  obtain ⟨attr, arguments⟩ := leaf
  rw [tryLeaf_eq, verdict_eq_error, narrowByAttribute] at h
  unfold narrowBy at h
  cases hfilter : surface.filter? (filterName attr) with
  | none =>
    rw [hfilter] at h
    cases h
    exact .unfilterable _
  | some filter =>
    rw [hfilter] at h
    exact Filter.concernsLeaf_of_narrow h

/-! ## Rule trees -/

/-- A rule that calls no named scope leaves the table as it is. -/
theorem over_of_narrowByRule_leaves {rule : Rule} (hrule : rule.CallsNoScope) {scope result : Scope}
    (hscope : scope.Over surface.table) (h : surface.narrowByRule rule scope = .ok result) :
    result.Over surface.table := by
  have hextends : result.Extends scope := by
    cases rule with
    | blank =>
      cases h
      exact Scope.Extends.refl scope
    | scope name param => exact hrule.elim
    | leaf attr arguments => exact extends_of_narrowBy h
    | composite rules conjunction =>
      rw [narrowByRule_composite, map_eq_ok] at h
      obtain ⟨combined, -, rfl⟩ := h
      exact scope.extends_conjoin combined
  exact ⟨hextends.model_eq.trans hscope.model_eq, hextends.table_eq.trans hscope.table_eq,
    hextends.primaryKey_eq.trans hscope.primaryKey_eq⟩

/-- Combining rules fails as their leaves do, in either way: both ways try the leaves from left to
right. -/
theorem verdict_combine {rules : List Rule}
    (hall : verdict (surface.narrowByAll rules surface.all) =
      (leavesOf rules).forM surface.tryLeaf)
    (hany : verdict (surface.branches rules) = (leavesOf rules).forM surface.tryLeaf)
    (conjunction : Conjunction) :
    verdict (surface.combine rules conjunction) = (leavesOf rules).forM surface.tryLeaf := by
  cases conjunction with
  | exclusive => exact hall
  | inclusive =>
    cases rules with
    | nil => rfl
    | cons first rest =>
      rw [← hany, combine]
      exact verdict_map (surface.branches (first :: rest)) surface.union

end Surface

mutual

/-- What comes of narrowing by a rule is what comes of checking its leaves. -/
theorem Surface.verdict_narrowByRule {surface : Surface} : (rule : Rule) → rule.CallsNoScope →
    ∀ {scope : Scope}, scope.Over surface.table →
      verdict (surface.narrowByRule rule scope) = rule.leaves.forM surface.tryLeaf
  | .blank, _, _, _ => rfl
  | .scope _ _, hrule, _, _ => hrule.elim
  | .leaf attr arguments, _, scope, hscope => by
    have hleaf : [(attr, arguments)].forM surface.tryLeaf = surface.tryLeaf (attr, arguments) := by
      show (surface.tryLeaf (attr, arguments) >>= fun _ => pure ()) = _
      cases surface.tryLeaf (attr, arguments) <;> rfl
    rw [Surface.narrowByRule, Rule.leaves, hleaf, Surface.tryLeaf_eq]
    exact surface.verdict_narrowBy (filterName attr) arguments hscope
  | .composite rules conjunction, hrules, scope, _ => by
    rw [Surface.narrowByRule_composite, verdict_map, Rule.leaves]
    exact Surface.verdict_combine (Surface.verdict_narrowByAll rules hrules surface.over_all)
      (Surface.verdict_branches rules hrules) conjunction

/-- Rules that must all hold fail as their leaves do. The scope grows from rule to rule, which no
verdict depends on. -/
theorem Surface.verdict_narrowByAll {surface : Surface} : (rules : List Rule) →
    CallNoScope rules → ∀ {scope : Scope}, scope.Over surface.table →
      verdict (surface.narrowByAll rules scope) = (leavesOf rules).forM surface.tryLeaf
  | [], _, _, _ => rfl
  | rule :: rest, ⟨hrule, hrest⟩, scope, hscope => by
    rw [Surface.narrowByAll, leavesOf_forM_cons, ← Surface.verdict_narrowByRule rule hrule hscope]
    cases hnarrowed : surface.narrowByRule rule scope with
    | error rejection => rfl
    | ok narrowed =>
      exact Surface.verdict_narrowByAll rest hrest
        (Surface.over_of_narrowByRule_leaves hrule hscope hnarrowed)

theorem Surface.verdict_branches {surface : Surface} : (rules : List Rule) → CallNoScope rules →
    verdict (surface.branches rules) = (leavesOf rules).forM surface.tryLeaf
  | [], _ => rfl
  | rule :: rest, ⟨hrule, hrest⟩ => by
    rw [Surface.branches, leavesOf_forM_cons,
      ← Surface.verdict_narrowByRule rule hrule surface.over_all,
      ← Surface.verdict_branches rest hrest]
    cases surface.narrowByRule rule surface.all with
    | error rejection => rfl
    | ok branch => exact verdict_map (surface.branches rest) (branch :: ·)

end

namespace Surface

variable {surface : Surface}

/-- Filtering fails as the leaves do, for every base. -/
theorem verdict_narrowByRules {rules : List Rule} (hrules : CallNoScope rules) (base : Scope)
    (conjunction : Conjunction) :
    verdict (surface.narrowByRules base rules conjunction) =
      (leavesOf rules).forM surface.tryLeaf := by
  rw [narrowByRules]
  cases rules with
  | nil => rfl
  | cons first rest =>
    have hne : ¬(first :: rest).isEmpty = true := Bool.false_ne_true
    rw [if_neg hne, verdict_map]
    exact verdict_combine (verdict_narrowByAll _ hrules surface.over_all)
      (verdict_branches _ hrules) conjunction

/-- Rules that call no named scope are rejected for the first leaf that is rejected on its own. -/
theorem narrowByRules_eq_error {rules : List Rule} (hrules : CallNoScope rules) {base : Scope}
    {conjunction : Conjunction} {rejection : Rejection} :
    surface.narrowByRules base rules conjunction = .error rejection ↔
      ∃ before leaf after, leavesOf rules = before ++ leaf :: after ∧
        (∀ earlier ∈ before, surface.tryLeaf earlier = .ok ()) ∧
        surface.tryLeaf leaf = .error rejection := by
  rw [← verdict_eq_error, verdict_narrowByRules hrules, forM_eq_error]

/-- Rules are rejected if and only if one of their leaves is rejected on its own. -/
theorem exists_rejection_iff {rules : List Rule} (hrules : CallNoScope rules) {base : Scope}
    {conjunction : Conjunction} :
    (∃ rejection, surface.narrowByRules base rules conjunction = .error rejection) ↔
      ∃ leaf ∈ leavesOf rules, ∃ rejection, surface.tryLeaf leaf = .error rejection := by
  constructor
  · rintro ⟨rejection, h⟩
    obtain ⟨before, leaf, after, heq, -, hleaf⟩ := (narrowByRules_eq_error hrules).mp h
    rw [heq]
    exact ⟨leaf, List.mem_append_right before (List.mem_cons_self ..), rejection, hleaf⟩
  · rintro ⟨leaf, hmem, rejection, hleaf⟩
    have hverdict : verdict (surface.narrowByRules base rules conjunction) =
        (leavesOf rules).forM surface.tryLeaf := verdict_narrowByRules hrules base conjunction
    cases houtcome : surface.narrowByRules base rules conjunction with
    | error other => exact ⟨other, rfl⟩
    | ok result =>
      -- had the rules been accepted, every leaf would have passed
      rw [houtcome] at hverdict
      have hpassed := forM_eq_ok.mp hverdict.symm leaf hmem
      rw [hleaf] at hpassed
      cases hpassed

/-- Rules without named scopes are rejected for a leaf of theirs. -/
theorem concernsLeaf_of_narrowByRules {rules : List Rule} (hrules : CallNoScope rules)
    {base : Scope} {conjunction : Conjunction} {rejection : Rejection}
    (h : surface.narrowByRules base rules conjunction = .error rejection) :
    rejection.ConcernsLeaf := by
  obtain ⟨_, leaf, _, -, -, hleaf⟩ := (narrowByRules_eq_error hrules).mp h
  exact concernsLeaf_of_tryLeaf hleaf

/-! ## Untrusted values -/

/-- A leaf without inversion. -/
def plainLeaf (leaf : String × Arguments) : String × Arguments :=
  (leaf.1, leaf.2.plain)

/-- Inversion of leaves changes no verdict. -/
theorem forM_tryLeaf_plainLeaf (leaves : List (String × Arguments)) :
    (leaves.map plainLeaf).forM surface.tryLeaf = leaves.forM surface.tryLeaf := by
  induction leaves with
  | nil => rfl
  | cons leaf rest ih =>
    have hsame : surface.tryLeaf (plainLeaf leaf) = surface.tryLeaf leaf := rfl
    show (surface.tryLeaf (plainLeaf leaf) >>= fun _ => (rest.map plainLeaf).forM _) = _
    rw [hsame, ih]
    rfl

/-- Filtering by a value is filtering by the rules that are read from it. -/
theorem narrowByJson_of_read {value : Json} {rules : List Rule}
    (h : (surface.reader.read value).result = .ok rules) (base : Scope)
    (conjunction : Conjunction) :
    surface.narrowByJson base value conjunction = surface.narrowByRules base rules conjunction := by
  rw [narrowByJson, h]
  rfl

/-- Filtering by a value in which no rule calls a named scope is rejected as invalid exactly if the
value stands for no rules. Otherwise it is rejected exactly if a leaf of the rules is on its own,
and with the rejection of the first such leaf, which is about the leaf's target or parameter. So the
base, the conjunctions, the nesting and the inversions make no difference. -/
theorem narrowByJson_rejections (surface : Surface) {value : Json}
    (hnone : ¬surface.reader.RefersToScope value) :
    (∀ base conjunction,
      (∃ fault, surface.narrowByJson base value conjunction = .error (.invalid fault)) ↔
        ∀ rules, (surface.reader.read value).result ≠ .ok rules) ∧
    (∀ rules, (surface.reader.read value).result = .ok rules → ∀ base conjunction,
      ((∃ rejection, surface.narrowByJson base value conjunction = .error rejection) ↔
        ∃ leaf ∈ leavesOf rules, ∃ rejection, surface.tryLeaf leaf = .error rejection) ∧
      ∀ rejection, surface.narrowByJson base value conjunction = .error rejection →
        rejection.ConcernsLeaf ∧
        ∃ before leaf after, leavesOf rules = before ++ leaf :: after ∧
          (∀ earlier ∈ before, surface.tryLeaf earlier = .ok ()) ∧
          surface.tryLeaf leaf = .error rejection) ∧
    ∀ other, ¬surface.reader.RefersToScope other → ∀ rules others,
      (surface.reader.read value).result = .ok rules →
      (surface.reader.read other).result = .ok others →
      (leavesOf rules).map plainLeaf = (leavesOf others).map plainLeaf →
      ∀ base changed conjunction replaced,
        verdict (surface.narrowByJson base value conjunction) =
          verdict (surface.narrowByJson changed other replaced) := by
  refine ⟨fun base conjunction => ?_, fun rules hread base conjunction => ?_, ?_⟩
  · -- what is read is rejected for a leaf, which is never invalid
    cases hread : (surface.reader.read value).result with
    | error rejection =>
      obtain ⟨fault, rfl⟩ := (surface.reader.result_read value).2 rejection hread
      refine ⟨fun _ _ => nofun, fun _ => ⟨fault, ?_⟩⟩
      rw [narrowByJson, hread]
      rfl
    | ok rules =>
      constructor
      · rintro ⟨fault, h⟩
        rw [narrowByJson_of_read hread] at h
        cases concernsLeaf_of_narrowByRules (RuleReader.callNoScope_of_read hnone hread) h
      · exact fun h => absurd rfl (h rules)
  · -- behind the reader only the leaves are left to be rejected
    have hrules := RuleReader.callNoScope_of_read hnone hread
    rw [narrowByJson_of_read hread]
    exact ⟨exists_rejection_iff hrules, fun rejection h =>
      ⟨concernsLeaf_of_narrowByRules hrules h, (narrowByRules_eq_error hrules).mp h⟩⟩
  · -- the verdict is that of the leaves without their inversion
    intro other hother rules others hread hreadOther hleaves base changed conjunction replaced
    rw [narrowByJson_of_read hread, narrowByJson_of_read hreadOther,
      verdict_narrowByRules (RuleReader.callNoScope_of_read hnone hread),
      verdict_narrowByRules (RuleReader.callNoScope_of_read hother hreadOther),
      ← forM_tryLeaf_plainLeaf, hleaves, forM_tryLeaf_plainLeaf]

/-! ### Articles by age and by title -/

/-- Ages that are not above three or that do not contain a three. -/
def ageElements (invert : Json) : List Json :=
  [.object [("column", .string "author_age"), ("operator", .string "more_than"),
      ("param", .number (.integer 3)), ("invert", invert)],
    .object [("column", .string "author_age"), ("operator", .string "containing"),
      ("param", .string "3"), ("invert", invert)]]

/-- A title, which articles have no filter for. -/
def titleElement : Json :=
  .object [("column", .string "title"), ("operator", .string "is"), ("param", .null)]

/-- The ages in a composite, in front of the title. -/
def nestedSearch : Json :=
  .array [.object [("rules", .array (ageElements (.bool true))), ("conjunction", .string "inclusive")],
    titleElement]

/-- The same leaves without a composite and without inversion. -/
def flatSearch : Json :=
  .array (ageElements .null ++ [titleElement])

theorem not_refersToScope_ageElements (invert : Json) :
    ¬articles.reader.RefersToScope (.array (ageElements invert)) := by
  refine RuleReader.not_refersToScope fun members hmem => ?_
  rcases List.mem_pair.mp hmem with h | h <;> cases h
  · exact ⟨RuleReader.scopeName?_eq_none.mp rfl, nofun⟩
  · exact ⟨RuleReader.scopeName?_eq_none.mp rfl, nofun⟩

theorem not_refersToScope_nestedSearch : ¬articles.reader.RefersToScope nestedSearch := by
  refine RuleReader.not_refersToScope fun members hmem => ?_
  rcases List.mem_pair.mp hmem with h | h <;> cases h
  · refine ⟨RuleReader.scopeName?_eq_none.mp rfl, fun value hvalue => ?_⟩
    cases hvalue
    exact not_refersToScope_ageElements (.bool true)
  · exact ⟨RuleReader.scopeName?_eq_none.mp rfl, nofun⟩

theorem not_refersToScope_flatSearch : ¬articles.reader.RefersToScope flatSearch := by
  refine RuleReader.not_refersToScope fun members hmem => ?_
  rcases List.mem_append.mp hmem with hmem | hmem
  · rcases List.mem_pair.mp hmem with h | h <;> cases h
    · exact ⟨RuleReader.scopeName?_eq_none.mp rfl, nofun⟩
    · exact ⟨RuleReader.scopeName?_eq_none.mp rfl, nofun⟩
  · cases List.mem_singleton.mp hmem
    exact ⟨RuleReader.scopeName?_eq_none.mp rfl, nofun⟩

/-- The nested search and the flat one are rejected alike: for the text, which integers cannot
contain, and not for the title behind it. -/
theorem narrowByJson_rejections_articles : ∃ rules,
    ¬articles.reader.RefersToScope nestedSearch ∧ ¬articles.reader.RefersToScope flatSearch ∧
    (articles.reader.read nestedSearch).result = .ok rules ∧
    articles.tryLeaf ("title", ⟨.equals, .null, false⟩) = .error (.unfilterable "by_title") ∧
    articles.narrowByJson articles.all nestedSearch .exclusive =
      .error (.mismatch "Containment" .integer) ∧
    (∃ before leaf after, leavesOf rules = before ++ leaf :: after ∧
      (∀ earlier ∈ before, articles.tryLeaf earlier = .ok ()) ∧
      articles.tryLeaf leaf = .error (.mismatch "Containment" .integer)) ∧
    ∀ base, articles.narrowByJson base flatSearch .inclusive =
      .error (.mismatch "Containment" .integer) := by
  obtain ⟨-, hfirst, halike⟩ := narrowByJson_rejections articles not_refersToScope_nestedSearch
  have hread : (articles.reader.read nestedSearch).result = .ok _ := rfl
  have hflat : (articles.reader.read flatSearch).result = .ok _ := rfl
  have hrejected : articles.narrowByJson articles.all nestedSearch .exclusive =
      .error (.mismatch "Containment" .integer) := rfl
  refine ⟨_, not_refersToScope_nestedSearch, not_refersToScope_flatSearch, hread, rfl, hrejected,
    ((hfirst _ hread articles.all .exclusive).2 _ hrejected).2, fun base => ?_⟩
  have hverdict := halike flatSearch not_refersToScope_flatSearch _ _ hread hflat rfl articles.all
    base .exclusive .inclusive
  rw [hrejected] at hverdict
  exact verdict_eq_error.mp hverdict.symm

end Surface

end Sift
