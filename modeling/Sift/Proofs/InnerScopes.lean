import Sift.Proofs.DirectFilters

/-!
# The scopes inside a scope

Conditions may hold scopes, whose conditions may hold scopes in turn. Operators put none into a
condition and renaming leaves them as they are, so a plain filter selects without any; only rules
that are inverted or enough on their own bring them in.
-/

namespace Sift

mutual

/-- The scopes inside a condition, at every depth. -/
def Condition.inner : Condition → List Scope
  | .compares _ _ _ => []
  | .isNull _ => []
  | .contains _ _ => []
  | .impossible => []
  | .isAmong _ scope _ => scope :: scope.inner
  | .anyOf members => innerOf members

/-- The scopes inside the conditions of a scope, at every depth. -/
def Scope.inner : Scope → List Scope
  | ⟨_, _, _, _, conditions, _, _⟩ => innerOf conditions

def innerOf : List Condition → List Scope
  | [] => []
  | condition :: rest => condition.inner ++ innerOf rest

end

/-- The inner scopes of a scope are those in its conditions. -/
theorem Scope.inner_eq (scope : Scope) : scope.inner = innerOf scope.conditions := by
  cases scope
  rw [inner]

/-- Inner scopes are listed in the order of the conditions. -/
theorem innerOf_append (first second : List Condition) :
    innerOf (first ++ second) = innerOf first ++ innerOf second := by
  induction first with
  | nil => rfl
  | cons condition rest ih => rw [List.cons_append, innerOf, innerOf, ih, List.append_assoc]

/-- An inner scope of conditions is one of a single condition. -/
theorem mem_innerOf {part : Scope} {conditions : List Condition} :
    part ∈ innerOf conditions ↔ ∃ condition ∈ conditions, part ∈ condition.inner := by
  induction conditions with
  | nil => simp [innerOf]
  | cons condition rest ih => simp [innerOf, ih]

mutual

/-- What is inside a scope inside a condition is inside the condition. -/
theorem Condition.inner_subset : (condition : Condition) →
    ∀ part ∈ condition.inner, part.inner ⊆ condition.inner
  | .compares _ _ _ => by simp [Condition.inner]
  | .isNull _ => by simp [Condition.inner]
  | .contains _ _ => by simp [Condition.inner]
  | .impossible => by simp [Condition.inner]
  | .isAmong _ scope _ => by
    intro part hpart
    rw [Condition.inner] at hpart ⊢
    rcases List.mem_cons.mp hpart with rfl | hpart
    · exact List.subset_cons_self _ _
    · exact List.subset_cons_of_subset _ (scope.inner_subset part hpart)
  | .anyOf members => by
    rw [Condition.inner]
    exact innerOf_subset members

/-- The scopes inside an inner scope are inner scopes of the whole, so they need not be looked for
any deeper. -/
theorem Scope.inner_subset : (scope : Scope) → ∀ part ∈ scope.inner, part.inner ⊆ scope.inner
  | ⟨_, _, _, _, conditions, _, _⟩ => by
    rw [Scope.inner]
    exact innerOf_subset conditions

theorem innerOf_subset : (conditions : List Condition) →
    ∀ part ∈ innerOf conditions, part.inner ⊆ innerOf conditions
  | [] => fun _ h => absurd h List.not_mem_nil
  | condition :: rest => by
    intro part hpart
    rw [innerOf] at hpart ⊢
    rcases List.mem_append.mp hpart with hpart | hpart
    · exact List.subset_append_of_subset_left _ (condition.inner_subset part hpart)
    · exact List.subset_append_of_subset_right _ (innerOf_subset rest part hpart)

end

mutual

/-- Renaming stops at inner scopes, which have qualifiers of their own. -/
theorem Condition.inner_renamed (renames : Renames) : (condition : Condition) →
    (condition.renamed renames).inner = condition.inner
  | .compares _ _ _ => by rw [Condition.renamed, Condition.inner, Condition.inner]
  | .isNull _ => by rw [Condition.renamed, Condition.inner, Condition.inner]
  | .contains _ _ => by rw [Condition.renamed, Condition.inner, Condition.inner]
  | .impossible => by rw [Condition.renamed]
  | .isAmong _ _ _ => by rw [Condition.renamed, Condition.inner, Condition.inner]
  | .anyOf members => by
    rw [Condition.renamed, Condition.inner, Condition.inner, innerOf_renamedAll renames members]

theorem innerOf_renamedAll (renames : Renames) : (conditions : List Condition) →
    innerOf (renamedAll renames conditions) = innerOf conditions
  | [] => rfl
  | condition :: rest => by
    rw [renamedAll, innerOf, innerOf, condition.inner_renamed renames,
      innerOf_renamedAll renames rest]

end

namespace Scope

@[simp] theorem inner_withoutPage (scope : Scope) : scope.withoutPage.inner = scope.inner := by
  rw [inner_eq, inner_eq]
  rfl

@[simp] theorem inner_narrow (scope : Scope) (conditions : List Condition) :
    (scope.narrow conditions).inner = scope.inner ++ innerOf conditions := by
  rw [inner_eq, inner_eq, conditions_narrow, innerOf_append]

@[simp] theorem inner_conjoin (scope other : Scope) :
    (scope.conjoin other).inner = scope.inner ++ other.inner := by
  rw [inner_eq, inner_eq, inner_eq, conditions_conjoin, innerOf_append]

/-- What comes through a join brings its inner scopes along, unchanged. -/
@[simp] theorem inner_conjoinVia (scope : Scope) (join : Join) (related : Scope) :
    (scope.conjoinVia join related).inner = scope.inner ++ related.inner := by
  have hconditions : (scope.conjoinVia join related).conditions =
      scope.conditions ++ renamedAll (renamesBehind join related) related.conditions := rfl
  rw [inner_eq, inner_eq, inner_eq, hconditions, innerOf_append, innerOf_renamedAll]

/-- Excluding a scope puts it inside, together with what is inside it. -/
@[simp] theorem inner_excluding (scope other : Scope) :
    (scope.excluding other).inner = scope.inner ++ other.withoutPage :: other.inner := by
  rw [excluding, inner_narrow, innerOf, Condition.inner, inner_withoutPage, innerOf,
    List.append_nil]

/-- Scopes that are conjoined one after the other bring in all that is inside them. -/
theorem inner_foldl (scope : Scope) (others : List Scope) :
    (others.foldl conjoin scope).inner = scope.inner ++ others.flatMap inner := by
  induction others generalizing scope with
  | nil => rw [List.foldl_nil, List.flatMap_nil, List.append_nil]
  | cons other rest ih =>
    rw [List.foldl_cons, ih, inner_conjoin, List.flatMap_cons, List.append_assoc]

end Scope

/-! ## Scopes of filters -/

/-- A comparison with a parameter has no scope inside. -/
theorem inner_equality (lhs : Operand) (type : Option ColumnType) (param : Json) :
    (equality lhs type param).inner = [] := by
  unfold equality
  split
  · rw [Condition.inner]
  · dsimp only
    split <;> rw [Condition.inner]

/-- Operators put no scope into their conditions, so inner scopes come from inversion, alternatives
and named scopes alone. -/
theorem Operator.inner_conditions {operator : Operator} {lhs : Operand} {type : Option ColumnType}
    {param : Json} {conditions : List Condition}
    (h : operator.conditions lhs type param = .ok conditions) : innerOf conditions = [] := by
  cases operator with
  | equals =>
    cases h
    rw [innerOf, inner_equality]
    rfl
  | within =>
    obtain ⟨⟨low, high⟩, -, h⟩ := bind_eq_ok.mp h
    cases h
    simp [innerOf, Condition.inner]
  | contains | atLeast | atMost =>
    cases h
    simp [innerOf, Condition.inner]

/-- What a plain filter selects holds no scope inside. -/
theorem Filter.inner_narrow_plain {filter : Filter} {operator : Operator} {param : Json}
    {owner : Table} {result : Scope}
    (h : filter.narrow ⟨operator, param, false⟩ (Scope.all owner) = .ok result) :
    result.inner = [] := by
  induction filter generalizing owner result with
  | own types target =>
    obtain ⟨conditions, hconditions, h⟩ := bind_eq_ok.mp h
    cases h
    obtain ⟨type, -, hconditions⟩ := bind_eq_ok.mp hconditions
    exact (Scope.inner_narrow _ _).trans (Operator.inner_conditions hconditions)
  | through join related next ih =>
    obtain ⟨matched, hmatched, h⟩ := bind_eq_ok.mp h
    cases h
    exact (Scope.inner_conjoinVia _ _ _).trans (ih hmatched)

end Sift
