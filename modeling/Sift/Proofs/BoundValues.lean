import Sift.Proofs.AlikeRules

/-!
# The values that statements bind

The parameters of a statement are the values in the conditions of its scope, in the order in which
they stand there; values in a scope inside a condition stand where the condition stands. Conjoining
scopes puts their values one behind the other, and neither renaming nor exclusion changes any.

So the parameters of a filtered scope are those of the base and behind them what each leaf of the
rules gives, from left to right: no leaf is lost, moved or compiled twice.
-/

namespace Sift

/-! ## Values of scopes -/

mutual

/-- The values in a condition, also in the scopes inside it, from left to right. -/
def Condition.boundValues : Condition → List Json
  | .compares _ _ value => [value]
  | .isNull _ => []
  | .contains _ needle => [needle]
  | .impossible => []
  | .isAmong _ scope _ => scope.boundValues
  | .anyOf members => boundValuesOf members

/-- The values in the conditions of a scope. -/
def Scope.boundValues : Scope → List Json
  | ⟨_, _, _, _, conditions, _, _⟩ => boundValuesOf conditions

def boundValuesOf : List Condition → List Json
  | [] => []
  | condition :: rest => condition.boundValues ++ boundValuesOf rest

end

/-- The values of a scope are those of its conditions: neither joins nor the page bind any. -/
theorem Scope.boundValues_eq (scope : Scope) :
    scope.boundValues = boundValuesOf scope.conditions := by
  cases scope
  rw [boundValues]

/-- Values are listed in the order of the conditions. -/
theorem boundValuesOf_append (first second : List Condition) :
    boundValuesOf (first ++ second) = boundValuesOf first ++ boundValuesOf second := by
  induction first with
  | nil => rfl
  | cons condition rest ih =>
    rw [List.cons_append, boundValuesOf, boundValuesOf, ih, List.append_assoc]

mutual

/-- Renaming changes no value. -/
theorem Condition.boundValues_renamed (renames : Renames) : (condition : Condition) →
    (condition.renamed renames).boundValues = condition.boundValues
  | .compares _ _ _ => by rw [Condition.renamed, Condition.boundValues, Condition.boundValues]
  | .isNull _ => by rw [Condition.renamed, Condition.boundValues, Condition.boundValues]
  | .contains _ _ => by rw [Condition.renamed, Condition.boundValues, Condition.boundValues]
  | .impossible => by rw [Condition.renamed]
  | .isAmong _ _ _ => by rw [Condition.renamed, Condition.boundValues, Condition.boundValues]
  | .anyOf members => by
    rw [Condition.renamed, Condition.boundValues, Condition.boundValues,
      boundValuesOf_renamedAll renames members]

theorem boundValuesOf_renamedAll (renames : Renames) : (conditions : List Condition) →
    boundValuesOf (renamedAll renames conditions) = boundValuesOf conditions
  | [] => rfl
  | condition :: rest => by
    rw [renamedAll, boundValuesOf, boundValuesOf, condition.boundValues_renamed renames,
      boundValuesOf_renamedAll renames rest]

end

namespace Scope

@[simp] theorem boundValues_all (table : Table) : (Scope.all table).boundValues = [] := by
  rw [boundValues_eq]
  rfl

@[simp] theorem boundValues_cleared (scope : Scope) : scope.cleared.boundValues = [] := by
  rw [boundValues_eq]
  rfl

@[simp] theorem boundValues_withoutPage (scope : Scope) :
    scope.withoutPage.boundValues = scope.boundValues := by
  rw [boundValues_eq, boundValues_eq]
  rfl

@[simp] theorem boundValues_narrow (scope : Scope) (conditions : List Condition) :
    (scope.narrow conditions).boundValues = scope.boundValues ++ boundValuesOf conditions := by
  rw [boundValues_eq, boundValues_eq, conditions_narrow, boundValuesOf_append]

@[simp] theorem boundValues_conjoin (scope other : Scope) :
    (scope.conjoin other).boundValues = scope.boundValues ++ other.boundValues := by
  rw [boundValues_eq, boundValues_eq, boundValues_eq, conditions_conjoin, boundValuesOf_append]

/-- What comes through a join binds its values behind those of the scope. -/
@[simp] theorem boundValues_conjoinVia (scope : Scope) (join : Join) (related : Scope) :
    (scope.conjoinVia join related).boundValues = scope.boundValues ++ related.boundValues := by
  have hconditions : (scope.conjoinVia join related).conditions =
      scope.conditions ++ renamedAll (renamesBehind join related) related.conditions := rfl
  rw [boundValues_eq, boundValues_eq, boundValues_eq, hconditions, boundValuesOf_append,
    boundValuesOf_renamedAll]

/-- Excluding a scope binds the values of the scope. -/
@[simp] theorem boundValues_excluding (scope other : Scope) :
    (scope.excluding other).boundValues = scope.boundValues ++ other.boundValues := by
  rw [excluding, boundValues_narrow, boundValuesOf, boundValuesOf, Condition.boundValues,
    boundValues_withoutPage, List.append_nil]

end Scope

theorem Surface.boundValues_all (surface : Surface) : surface.all.boundValues = [] :=
  Scope.boundValues_all surface.table

/-- A union binds the values of its branches, one branch after the other. -/
theorem Surface.boundValues_union (surface : Surface) (branches : List Scope) :
    (surface.union branches).boundValues = branches.flatMap Scope.boundValues := by
  have hmembers : boundValuesOf
      (branches.map fun branch => .isAmong surface.all.key branch.withoutPage false) =
        branches.flatMap Scope.boundValues := by
    induction branches with
    | nil => rfl
    | cons branch rest ih =>
      rw [List.map_cons, boundValuesOf, ih, Condition.boundValues, Scope.boundValues_withoutPage,
        List.flatMap_cons]
  rw [union, Scope.boundValues_narrow, boundValues_all, boundValuesOf, boundValuesOf,
    Condition.boundValues, hmembers, List.append_nil, List.nil_append]

/-! ## Parameters of statements -/

/-- A connective stands between the first two conditions. -/
theorem connect_cons_cons (connective : String) (first second : List Piece)
    (rest : List (List Piece)) :
    connect connective (first :: second :: rest) =
      first ++ (.text connective :: connect connective (second :: rest)) := by
  rw [connect, connect, List.intercalate_cons_cons, List.append_assoc]
  rfl

section

variable (database : Database)

/-- Connectives bind nothing. -/
theorem values_connect (connective : String) (conditions : List (List Piece)) :
    Piece.values (connect connective conditions) = conditions.flatMap Piece.values := by
  induction conditions with
  | nil => rfl
  | cons first rest ih =>
    cases rest with
    | nil => simp [connect]
    | cons second rest =>
      rw [connect_cons_cons, Piece.values_append, Piece.values_text, ih]
      rfl

/-- The conditions of a statement bind their values in order, whether there are any or not. -/
theorem values_whereClause (conditions : List (List Piece)) :
    Piece.values (whereClause conditions) = conditions.flatMap Piece.values := by
  cases conditions with
  | nil => rfl
  | cons first rest =>
    have hclause : whereClause (first :: rest) =
        .text " WHERE " :: connect " AND " (first :: rest) := rfl
    rw [hclause, Piece.values_text, values_connect]

/-- A selection binds nothing. -/
theorem values_selection (verb table primaryKey : String) (joins : List Join) :
    Piece.values (selection verb table primaryKey joins) = [] := by
  rw [selection, Piece.values_text]
  induction joins with
  | nil => rfl
  | cons join rest ih => rw [List.map_cons, Piece.values_text, ih]

/-- A search binds its needle, in every database. -/
theorem Database.values_contains (expression : String) (needle : Json) :
    Piece.values (database.contains expression (.param needle)) = [needle] := by
  cases database <;> rfl

mutual

/-- The values of a written condition are those of the condition. The three statements go through
conditions and scopes together. -/
theorem Condition.values_pieces : (condition : Condition) →
    Piece.values (condition.pieces database) = condition.boundValues
  | .compares _ _ _ => by rw [Condition.pieces, Condition.boundValues]; rfl
  | .isNull _ => by rw [Condition.pieces, Condition.boundValues]; rfl
  | .contains lhs needle => by
    rw [Condition.pieces, Condition.boundValues, database.values_contains]
  | .impossible => by rw [Condition.pieces, Condition.boundValues]; rfl
  | .isAmong _ scope _ => by
    rw [Condition.pieces, Condition.boundValues, Piece.values_text, Piece.values_append,
      scope.values_subquery, Piece.values_text, Piece.values_nil, List.append_nil]
  | .anyOf [] => by rw [Condition.pieces, Condition.boundValues]; rfl
  | .anyOf (first :: rest) => by
    have hconnected : (first.pieces database :: conditionPieces database rest).flatMap
        Piece.values = boundValuesOf (first :: rest) :=
      flatMap_values_conditionPieces (first :: rest)
    rw [Condition.pieces, Condition.boundValues, Piece.values_text, Piece.values_append,
      values_connect, hconnected, Piece.values_text, Piece.values_nil, List.append_nil]

theorem Scope.values_subquery : (scope : Scope) →
    Piece.values (scope.subquery database) = scope.boundValues
  | ⟨_, _, _, _, conditions, _, _⟩ => by
    rw [Scope.subquery, Scope.boundValues, Piece.values_append, values_selection,
      values_whereClause, flatMap_values_conditionPieces conditions, List.nil_append]

theorem flatMap_values_conditionPieces : (conditions : List Condition) →
    (conditionPieces database conditions).flatMap Piece.values = boundValuesOf conditions
  | [] => rfl
  | condition :: rest => by
    rw [conditionPieces, boundValuesOf, List.flatMap_cons, condition.values_pieces,
      flatMap_values_conditionPieces rest]

end

/-- The parameters of a statement are the values in the scope, whatever the database. -/
theorem Scope.params_eq_boundValues (scope : Scope) :
    scope.params database = scope.boundValues := by
  have hpage : Piece.values (scope.orderAndPage database) = [] := by
    unfold orderAndPage
    cases database.pageClause scope.limit scope.offset <;> rfl
  rw [params, statement, Piece.values_append, Piece.values_append, values_selection,
    values_whereClause, flatMap_values_conditionPieces, hpage, boundValues_eq, List.nil_append,
    List.append_nil]

end

/-! ## Values of rules -/

mutual

/-- The leaves of a rule from left to right. -/
def Rule.leaves : Rule → List (String × Arguments)
  | .blank => []
  | .scope _ _ => []
  | .leaf attr arguments => [(attr, arguments)]
  | .composite rules _ => leavesOf rules

def leavesOf : List Rule → List (String × Arguments)
  | [] => []
  | rule :: rest => rule.leaves ++ leavesOf rest

end

mutual

/-- No rule in a tree calls a named scope. -/
def Rule.CallsNoScope : Rule → Prop
  | .blank => True
  | .scope _ _ => False
  | .leaf _ _ => True
  | .composite rules _ => CallNoScope rules

def CallNoScope : List Rule → Prop
  | [] => True
  | rule :: rest => rule.CallsNoScope ∧ CallNoScope rest

end

/-- The value that a target of a type is compared with for equality, if there is one. -/
def denoted? (type : Option ColumnType) (param : Json) : Option Json :=
  match type with
  | some type => Coercion.ofJson? type param
  | none => some param

/-- The values that an operator with a parameter compares a target of a type with. -/
def Operator.boundValues (operator : Operator) (type : Option ColumnType) (param : Json) :
    List Json :=
  match operator with
  | equals => if param.isNull then [] else (denoted? type param).toList
  | contains => [param]
  | within => (Bounds.ofParam? param).elim [] fun bounds => [bounds.1, bounds.2]
  | atLeast => [param]
  | atMost => [param]

/-- The values of a leaf on a surface, with or without inversion. -/
def Surface.leafValues (surface : Surface) (leaf : String × Arguments) : List Json :=
  (surface.filters.lookup leaf.1).elim [] fun filter =>
    leaf.2.operator.boundValues (filter.columnType? surface.model) leaf.2.param

/-- A comparison for equality binds a value unless null is looked for or the parameter denotes
nothing. -/
theorem boundValues_equality (lhs : Operand) (type : Option ColumnType) (param : Json) :
    (equality lhs type param).boundValues = Operator.equals.boundValues type param := by
  unfold equality
  rw [Operator.boundValues]
  by_cases hnull : param.isNull
  · rw [if_pos hnull, if_pos hnull, Condition.boundValues]
  rw [if_neg hnull, if_neg hnull]
  cases type with
  | none =>
    dsimp only
    rw [Condition.boundValues]
    rfl
  | some known =>
    rw [denoted?]
    dsimp only
    -- what denotes no value of the type makes the condition impossible, and nothing is bound
    cases Coercion.ofJson? known param with
    | none =>
      dsimp only
      rw [Condition.boundValues]
      rfl
    | some value =>
      dsimp only
      rw [Condition.boundValues]
      rfl

/-- What an operator binds can be told from the operator, the type and the parameter, without the
conditions. -/
theorem Operator.boundValuesOf_conditions {operator : Operator} {lhs : Operand}
    {type : Option ColumnType} {param : Json} {conditions : List Condition}
    (h : operator.conditions lhs type param = .ok conditions) :
    boundValuesOf conditions = operator.boundValues type param := by
  cases operator with
  | equals =>
    cases h
    rw [boundValuesOf, boundValuesOf, boundValues_equality, List.append_nil]
  | within =>
    obtain ⟨⟨low, high⟩, hbounds, h⟩ := bind_eq_ok.mp h
    cases h
    rw [Bounds.ofParam] at hbounds
    cases hparam : Bounds.ofParam? param with
    | none =>
      rw [hparam] at hbounds
      cases hbounds
    | some bounds =>
      rw [hparam] at hbounds
      cases hbounds
      simp [boundValuesOf, Condition.boundValues, Operator.boundValues, hparam]
  | contains | atLeast | atMost =>
    cases h
    simp [boundValuesOf, Condition.boundValues, Operator.boundValues]

/-- A plain filter adds the values of its operator, for the type of the column at its end. -/
theorem Filter.boundValues_narrow_plain {filter : Filter} {operator : Operator} {param : Json}
    {scope result : Scope} (h : filter.narrow ⟨operator, param, false⟩ scope = .ok result) :
    result.boundValues =
      scope.boundValues ++ operator.boundValues (filter.columnType? scope.model) param := by
  induction filter generalizing scope result with
  | own types target =>
    obtain ⟨conditions, hconditions, h⟩ := bind_eq_ok.mp h
    cases h
    obtain ⟨type, htype, hconditions⟩ := bind_eq_ok.mp hconditions
    have hvalues := Operator.boundValuesOf_conditions hconditions
    rw [Target.type_eq htype] at hvalues
    rw [Scope.boundValues_narrow, hvalues]
  | through join related next ih =>
    obtain ⟨matched, hmatched, h⟩ := bind_eq_ok.mp h
    cases h
    have hvalues := ih hmatched
    rw [Scope.boundValues_all, List.nil_append] at hvalues
    rw [Scope.boundValues_conjoinVia, hvalues]
    rfl

/-- A filter brings in the values of its operator once, with or without inversion. -/
theorem Filter.boundValues_narrow {filter : Filter} {arguments : Arguments} {scope result : Scope}
    (h : filter.narrow arguments scope = .ok result) :
    result.boundValues = scope.boundValues ++
      arguments.operator.boundValues (filter.columnType? scope.model) arguments.param := by
  obtain ⟨operator, param, invert⟩ := arguments
  cases invert with
  | false => exact Filter.boundValues_narrow_plain h
  | true =>
    rw [Filter.narrow_inverted, map_eq_ok] at h
    obtain ⟨matched, hmatched, rfl⟩ := h
    have hvalues := Filter.boundValues_narrow_plain hmatched
    rw [Scope.boundValues_cleared, List.nil_append] at hvalues
    rw [Scope.boundValues_excluding, hvalues]
    rfl

/-- A result for the same model with values behind those of a scope. -/
structure Scope.Adds (scope : Scope) (values : List Json) (result : Scope) : Prop where
  model_eq : result.model = scope.model
  boundValues_eq : result.boundValues = scope.boundValues ++ values

namespace Scope.Adds

variable {scope between result : Scope} {values more : List Json}

theorem refl (scope : Scope) : scope.Adds [] scope := ⟨rfl, (List.append_nil _).symm⟩

/-- One narrowing after another adds the values of both, in this order. -/
theorem trans (h : scope.Adds values between) (hmore : between.Adds more result) :
    scope.Adds (values ++ more) result where
  model_eq := hmore.model_eq.trans h.model_eq
  boundValues_eq := by
    rw [hmore.boundValues_eq, h.boundValues_eq, List.append_assoc]

/-- Conjoining adds the values of the second scope. -/
theorem conjoin {other : Scope} (h : other.boundValues = values) :
    scope.Adds values (scope.conjoin other) where
  model_eq := rfl
  boundValues_eq := by rw [boundValues_conjoin, h]

end Scope.Adds

namespace Surface

variable {surface : Surface}

/-- A leaf adds its own values, inverted or not: an inverted one binds them in the scope that is
excluded. -/
theorem adds_leaf {attr : String} {arguments : Arguments} {scope result : Scope}
    (hmodel : scope.model = surface.model)
    (h : surface.narrowByRule (.leaf attr arguments) scope = .ok result) :
    scope.Adds (surface.leafValues (attr, arguments)) result := by
  obtain ⟨filter, hlookup, hnarrow⟩ := narrowByAttribute_eq_ok.mp h
  have hvalues := Filter.boundValues_narrow hnarrow
  have hextends := Filter.extends_of_narrow hnarrow
  rw [hmodel] at hvalues
  refine ⟨hextends.model_eq, ?_⟩
  rw [hvalues, leafValues, hlookup]
  rfl

/-- The combination of rules holds the values of their leaves, in either conjunction. -/
theorem boundValues_combine {rules : List Rule}
    (hall : ∀ combined, surface.narrowByAll rules surface.all = .ok combined →
      surface.all.Adds ((leavesOf rules).flatMap surface.leafValues) combined)
    (hany : ∀ branches, surface.branches rules = .ok branches →
      branches.flatMap Scope.boundValues = (leavesOf rules).flatMap surface.leafValues)
    {conjunction : Conjunction} {combined : Scope}
    (h : surface.combine rules conjunction = .ok combined) :
    combined.boundValues = (leavesOf rules).flatMap surface.leafValues := by
  cases conjunction with
  | exclusive =>
    have hcombined := (hall combined h).boundValues_eq
    rwa [boundValues_all, List.nil_append] at hcombined
  | inclusive =>
    cases rules with
    | nil =>
      cases h
      exact surface.boundValues_all
    | cons first rest =>
      obtain ⟨branches, hbranches, h⟩ := bind_eq_ok.mp h
      cases h
      rw [boundValues_union, hany branches hbranches]

end Surface

mutual

/-- Narrowing by a rule adds the values of its leaves. -/
theorem Surface.adds_of_narrowByRule {surface : Surface} : (rule : Rule) → rule.CallsNoScope →
    ∀ {scope result : Scope}, scope.model = surface.model →
      surface.narrowByRule rule scope = .ok result →
      scope.Adds (rule.leaves.flatMap surface.leafValues) result
  | .blank, _, scope, result, _, h => by
    cases h
    exact Scope.Adds.refl scope
  | .scope _ _, hrule, _, _, _, _ => hrule.elim
  | .leaf attr arguments, _, scope, result, hmodel, h => by
    have hadds := Surface.adds_leaf hmodel h
    rwa [Rule.leaves, List.flatMap_singleton]
  | .composite rules conjunction, hrules, scope, result, _, h => by
    rw [Surface.narrowByRule_composite, map_eq_ok] at h
    obtain ⟨combined, hcombined, rfl⟩ := h
    refine Scope.Adds.conjoin (Surface.boundValues_combine ?_ ?_ hcombined)
    · exact fun _ => Surface.adds_of_narrowByAll rules hrules rfl
    · exact fun _ => Surface.flatMap_boundValues_branches rules hrules

/-- Rules that must all hold add the values of their leaves from left to right. -/
theorem Surface.adds_of_narrowByAll {surface : Surface} : (rules : List Rule) →
    CallNoScope rules → ∀ {scope result : Scope}, scope.model = surface.model →
      surface.narrowByAll rules scope = .ok result →
      scope.Adds ((leavesOf rules).flatMap surface.leafValues) result
  | [], _, scope, result, _, h => by
    cases h
    exact Scope.Adds.refl scope
  | rule :: rest, ⟨hrule, hrest⟩, scope, result, hmodel, h => by
    obtain ⟨narrowed, hnarrowed, h⟩ := bind_eq_ok.mp h
    have hfirst := Surface.adds_of_narrowByRule rule hrule hmodel hnarrowed
    have hmodel_narrowed : narrowed.model = surface.model := hfirst.model_eq.trans hmodel
    have hothers := Surface.adds_of_narrowByAll rest hrest hmodel_narrowed h
    rw [leavesOf, List.flatMap_append]
    exact hfirst.trans hothers

/-- The branches of a union bind the values of the leaves from left to right. -/
theorem Surface.flatMap_boundValues_branches {surface : Surface} : (rules : List Rule) →
    CallNoScope rules → ∀ {branches : List Scope}, surface.branches rules = .ok branches →
      branches.flatMap Scope.boundValues = (leavesOf rules).flatMap surface.leafValues
  | [], _, branches, h => by
    cases h
    rfl
  | rule :: rest, ⟨hrule, hrest⟩, branches, h => by
    obtain ⟨branch, hbranch, h⟩ := bind_eq_ok.mp h
    obtain ⟨others, hothers, h⟩ := bind_eq_ok.mp h
    cases h
    -- each branch starts from all rows, which hold no value
    have hfirst := (Surface.adds_of_narrowByRule rule hrule rfl hbranch).boundValues_eq
    rw [Surface.boundValues_all, List.nil_append] at hfirst
    rw [List.flatMap_cons, leavesOf, List.flatMap_append, hfirst,
      Surface.flatMap_boundValues_branches rest hrest hothers]

end

/-- The parameters of a filtered base are those of the base and behind them the values of the
leaves from left to right, the same for all databases. -/
theorem Surface.params_narrowByRules {surface : Surface} {base result : Scope} {rules : List Rule}
    (hrules : CallNoScope rules) {conjunction : Conjunction}
    (h : surface.narrowByRules base rules conjunction = .ok result) (database : Database) :
    result.params database =
      base.params database ++ (leavesOf rules).flatMap surface.leafValues ∧
    ∀ other : Database, result.params other = result.params database := by
  have hsame : ∀ other : Database, result.params other = result.params database := by
    intro other
    rw [Scope.params_eq_boundValues, Scope.params_eq_boundValues]
  refine ⟨?_, hsame⟩
  rw [Scope.params_eq_boundValues, Scope.params_eq_boundValues]
  rcases narrowByRules_eq_ok.mp h with ⟨rfl, rfl⟩ | ⟨-, combined, hcombined, rfl⟩
  · exact (List.append_nil _).symm
  · rw [Scope.boundValues_conjoin, boundValues_combine ?_ ?_ hcombined]
    · exact fun _ => adds_of_narrowByAll rules hrules rfl
    · exact fun _ => flatMap_boundValues_branches rules hrules

/-! ### Some of the first visits -/

namespace Surface

/-- The visits up to a number. -/
def firstVisits : Scope :=
  visits.all.narrow [.compares visits.all.key .atMost (.number (.integer 90))]

/-- Leaves in composites of both kinds: a range whose ends are given in no order, a text that
denotes a number, one that denotes none, null, and a text for an expression. -/
def mixedRules : List Rule :=
  [.composite [.leaf "shop_offers_price" ⟨.within, .array [.number (.integer 9),
      .number (.integer 2), .number (.integer 4)], true⟩, .blank] .exclusive,
    .leaf "shop_city_size" ⟨.equals, .string " 70 ", false⟩,
    .composite [.leaf "shop_city_size" ⟨.equals, .string "large", false⟩,
      .leaf "shop" ⟨.equals, .null, true⟩,
      .leaf "shop_offers_total" ⟨.contains, .string "$1", false⟩] .inclusive]

/-- The base's value comes first; the text that denotes no number and null bind nothing. -/
theorem params_narrowByRules_mixed : ∃ result,
    CallNoScope mixedRules ∧
    visits.narrowByRules firstVisits mixedRules .inclusive = .ok result ∧
    result.params .postgres = [.number (.integer 90), .number (.integer 2), .number (.integer 9),
      .number (.integer 70), .string "$1"] ∧
    result.params .postgres =
      firstVisits.params .postgres ++ (leavesOf mixedRules).flatMap visits.leafValues ∧
    ∀ other : Database, result.params other = result.params .postgres := by
  have hrules : CallNoScope mixedRules :=
    ⟨⟨trivial, trivial, trivial⟩, trivial, ⟨trivial, trivial, trivial, trivial⟩, trivial⟩
  have h : visits.narrowByRules firstVisits mixedRules .inclusive = .ok _ := rfl
  exact ⟨_, hrules, h, rfl, params_narrowByRules hrules h .postgres⟩

end Surface

end Sift
