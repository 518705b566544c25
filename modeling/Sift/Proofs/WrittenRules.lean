import Sift.Proofs.RuleGrammar

/-!
# Rules as they are written

Each rule has one form in which it is written: a blank rule as an empty object, every other rule
with the members that its kind needs, under the first names of operators and conjunctions. A reader
gives back exactly the rules that were written, whatever their parameters hold, if it accepts so
many and so deep ones and if it can tell scopes and attributes apart by their names. Otherwise it
never gives them back.
-/

namespace Sift

/-! ## Written rules -/

mutual

/-- The form in which a rule is written. -/
def Rule.toJson : Rule → Json
  | .blank => .object []
  | .scope name param => .object [("column", .string name), ("param", param)]
  | .leaf attr arguments =>
    .object [("column", .string attr), ("operator", .string arguments.operator.name),
      ("param", arguments.param), ("invert", .bool arguments.invert)]
  | .composite rules conjunction =>
    .object [("rules", .array (toJsons rules)), ("conjunction", .string conjunction.name)]

def toJsons : List Rule → List Json
  | [] => []
  | rule :: rest => rule.toJson :: toJsons rest

end

mutual

/-- The number of composites that are inside each other in a rule. -/
def Rule.levels : Rule → Nat
  | .blank => 0
  | .scope _ _ => 0
  | .leaf _ _ => 0
  | .composite rules _ => levelsOf rules + 1

def levelsOf : List Rule → Nat
  | [] => 0
  | rule :: rest => max rule.levels (levelsOf rest)

end

mutual

/-- A rule calls none but allowed scopes, and none of its leaves is about an attribute with the name
of an allowed scope. -/
def Rule.CallsAllowed (allowed : List String) : Rule → Prop
  | .blank => True
  | .scope name _ => name ∈ allowed
  | .leaf attr _ => attr ∉ allowed
  | .composite rules _ => CallAllowed allowed rules

def CallAllowed (allowed : List String) : List Rule → Prop
  | [] => True
  | rule :: rest => rule.CallsAllowed allowed ∧ CallAllowed allowed rest

end

namespace RuleReader

variable {reader : RuleReader} {depth : Nat}

/-! ## What written rules stand for -/

/-- What denotes a named scope calls one that is allowed. -/
theorem Denotes.mem_allowedScopes {element : Json} {name : String} {param : Json}
    (h : reader.Denotes depth element (.scope name param)) : name ∈ reader.allowedScopes := by
  cases h with
  | scope _ hallowed => exact hallowed

/-- What denotes a leaf is about an attribute that is not the name of an allowed scope: such a name
is always a call. -/
theorem Denotes.notMem_allowedScopes {element : Json} {attr : String} {arguments : Arguments}
    (h : reader.Denotes depth element (.leaf attr arguments)) : attr ∉ reader.allowedScopes := by
  cases h with
  | leaf hnone _ hcolumn => exact hnone attr hcolumn

/-- An array denotes a list if its elements denote the rules, one by one. -/
theorem denotesList_array {elements : List Json} {rules : List Rule} :
    reader.DenotesList depth (.array elements) rules ↔
      reader.DenotesEach depth elements rules := by
  constructor
  · intro h
    cases h with
    | array helements => exact helements
  · exact .array

theorem denotesEach_cons {element : Json} {elements : List Json} {rule : Rule}
    {rules : List Rule} :
    reader.DenotesEach depth (element :: elements) (rule :: rules) ↔
      reader.Denotes depth element rule ∧ reader.DenotesEach depth elements rules := by
  constructor
  · intro h
    cases h with
    | cons hfirst hrest => exact ⟨hfirst, hrest⟩
  · exact fun ⟨hfirst, hrest⟩ => .cons hfirst hrest

/-- A written call is read back exactly if the named scope is allowed. -/
theorem denotes_toJson_scope (name : String) (param : Json) :
    reader.Denotes depth (Rule.scope name param).toJson (.scope name param) ↔
      name ∈ reader.allowedScopes := by
  refine ⟨Denotes.mem_allowedScopes, fun hallowed => ?_⟩
  rw [Rule.toJson, denotes_scope (scopeName?_eq_some.mpr ⟨rfl, hallowed⟩)]
  rfl

/-- A written leaf is read back exactly if its attribute is not the name of an allowed scope. -/
theorem denotes_toJson_leaf (attr : String) (arguments : Arguments) :
    reader.Denotes depth (Rule.leaf attr arguments).toJson (.leaf attr arguments) ↔
      attr ∉ reader.allowedScopes := by
  refine ⟨Denotes.notMem_allowedScopes, fun hattr => ?_⟩
  obtain ⟨operator, param, invert⟩ := arguments
  have hnone : reader.CallsNone [("column", .string attr), ("operator", .string operator.name),
      ("param", param), ("invert", .bool invert)] := by
    rintro name ⟨⟩
    exact hattr
  rw [Rule.toJson, denotes_leaf (List.cons_ne_nil _ _) hnone rfl, leafOf_eq_ok]
  exact ⟨attr, operator.name, operator, param, ⟨rfl, rfl, Operator.ofName?_name operator, rfl⟩, rfl⟩

/-- A written composite states its conjunction and nothing else about its rules. -/
theorem denotes_toJson_composite (rules : List Rule) (conjunction : Conjunction) :
    reader.Denotes depth (Rule.composite rules conjunction).toJson
        (.composite rules conjunction) ↔
      depth + 1 ≤ reader.limits.depth ∧ reader.DenotesEach (depth + 1) (toJsons rules) rules := by
  have hnone : reader.CallsNone
      [("rules", .array (toJsons rules)), ("conjunction", .string conjunction.name)] := nofun
  rw [Rule.toJson, denotes_composite hnone rfl]
  refine and_congr_right fun _ => ?_
  constructor
  · rintro ⟨stated, -, nested, hnested, heq⟩
    obtain ⟨rfl, rfl⟩ := Rule.composite.inj heq
    exact denotesList_array.mp hnested
  · intro hnested
    have hstated := Conjunction.ofText_name conjunction
    exact ⟨conjunction, .written rfl hstated, rules, .array hnested, rfl⟩

end RuleReader

mutual

/-- What is written for a rule stands for it where there is room for its levels. -/
theorem Rule.denotes_toJson {reader : RuleReader} : (rule : Rule) → ∀ {depth : Nat},
    depth ≤ reader.limits.depth →
    (reader.Denotes depth rule.toJson rule ↔
      rule.CallsAllowed reader.allowedScopes ∧ depth + rule.levels ≤ reader.limits.depth)
  | .blank, depth, hdepth => by
    rw [Rule.CallsAllowed, Rule.levels]
    exact iff_of_true .empty ⟨trivial, hdepth⟩
  | .scope name param, depth, hdepth => by
    rw [RuleReader.denotes_toJson_scope, Rule.CallsAllowed, Rule.levels, Nat.add_zero,
      and_iff_left hdepth]
  | .leaf attr arguments, depth, hdepth => by
    rw [RuleReader.denotes_toJson_leaf, Rule.CallsAllowed, Rule.levels, Nat.add_zero,
      and_iff_left hdepth]
  | .composite rules conjunction, depth, hdepth => by
    -- the rules inside are one level down
    rw [RuleReader.denotes_toJson_composite, Rule.CallsAllowed, Rule.levels]
    constructor
    · rintro ⟨hdeeper, hnested⟩
      obtain ⟨hallowed, hlevels⟩ := (denotesEach_toJsons rules hdeeper).mp hnested
      exact ⟨hallowed, by omega⟩
    · rintro ⟨hallowed, hlevels⟩
      have hdeeper : depth + 1 ≤ reader.limits.depth := by omega
      exact ⟨hdeeper, (denotesEach_toJsons rules hdeeper).mpr ⟨hallowed, by omega⟩⟩

theorem denotesEach_toJsons {reader : RuleReader} : (rules : List Rule) → ∀ {depth : Nat},
    depth ≤ reader.limits.depth →
    (reader.DenotesEach depth (toJsons rules) rules ↔
      CallAllowed reader.allowedScopes rules ∧ depth + levelsOf rules ≤ reader.limits.depth)
  | [], depth, hdepth => by
    rw [toJsons, CallAllowed, levelsOf]
    exact iff_of_true .nil ⟨trivial, hdepth⟩
  | rule :: rest, depth, hdepth => by
    rw [toJsons, RuleReader.denotesEach_cons, rule.denotes_toJson hdepth,
      denotesEach_toJsons rest hdepth, CallAllowed, levelsOf]
    constructor
    · rintro ⟨⟨hrule, hlevels⟩, hrest, hothers⟩
      exact ⟨⟨hrule, hrest⟩, by omega⟩
    · rintro ⟨⟨hrule, hrest⟩, hlevels⟩
      exact ⟨⟨hrule, by omega⟩, hrest, by omega⟩

end

/-- A reader gives back rules that were written exactly if their scopes are allowed and their
attributes are not called like allowed scopes, if their composites are no deeper than the limit, and
if they are no more than the limit. What their parameters hold does not matter. -/
theorem RuleReader.result_read_toJsons (reader : RuleReader) (rules : List Rule) :
    (reader.read (.array (toJsons rules))).result = .ok rules ↔
      CallAllowed reader.allowedScopes rules ∧ levelsOf rules ≤ reader.limits.depth ∧
        nodesOf rules ≤ reader.limits.rules := by
  rw [(reader.reads_read (.array (toJsons rules))).result_eq_ok_iff, denotesList_array,
    denotesEach_toJsons rules (Nat.zero_le _), Nat.zero_add, and_assoc]

/-- Six rules on two levels, with parameters that look like rules. -/
def disguisedRules : List Rule :=
  [.blank, .scope "recent" .null,
    .composite [.composite [.leaf "age" ⟨.within, .object [("rules", .array [.null]),
      ("column", .string "recent")], true⟩] .inclusive, .composite [] .exclusive] .exclusive]

example :
    let reader : RuleReader := ⟨["recent"], ⟨6, 2, 0⟩⟩
    (reader.read (.array (toJsons disguisedRules))).result = .ok disguisedRules := rfl

end Sift
