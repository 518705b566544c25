import Sift.Proofs.Rows

/-!
# The operands of conditions

The truth of a condition on a line depends on the values of its own operands and on nothing else;
what the scopes inside it mention are columns of other tables. So a condition means the same on two
lines that agree on the qualifiers it mentions, and a renamed condition means on one line what the
original means on a line with the old names.
-/

namespace Sift

mutual

/-- The operands of a condition, without those of the scopes inside it. -/
def Condition.operands : Condition → List Operand
  | .compares lhs _ _ => [lhs]
  | .isNull lhs => [lhs]
  | .contains lhs _ => [lhs]
  | .impossible => []
  | .isAmong lhs _ _ => [lhs]
  | .anyOf members => operandsOf members

def operandsOf : List Condition → List Operand
  | [] => []
  | condition :: rest => condition.operands ++ operandsOf rest

end

/-- Whether the table of an operand is known under one of some qualifiers. An expression is about
the scope's own table, which needs no qualifier. -/
def Operand.DeclaredIn (names : List String) : Operand → Prop
  | .column source => source.qualifier ∈ names
  | .expression _ => True

/-- The qualifiers of a scope: its own table and its joins. -/
def Scope.names (scope : Scope) : List String :=
  scope.table :: scope.joins.map Join.qualifier

/-- All operands of a scope are about its own tables. -/
def Scope.OperandsDeclared (scope : Scope) : Prop :=
  ∀ operand ∈ operandsOf scope.conditions, operand.DeclaredIn scope.names

instance (names : List String) (operand : Operand) : Decidable (operand.DeclaredIn names) :=
  match operand with
  | .column source => inferInstanceAs (Decidable (source.qualifier ∈ names))
  | .expression _ => .isTrue trivial

instance (scope : Scope) : Decidable scope.OperandsDeclared :=
  inferInstanceAs
    (Decidable (∀ operand ∈ operandsOf scope.conditions, operand.DeclaredIn scope.names))

/-- The operands of conditions are those of each of them. -/
theorem mem_operandsOf {operand : Operand} {conditions : List Condition} :
    operand ∈ operandsOf conditions ↔ ∃ condition ∈ conditions, operand ∈ condition.operands := by
  induction conditions with
  | nil => simp [operandsOf]
  | cons condition rest ih => simp [operandsOf, ih]

/-- Operands are listed in the order of the conditions. -/
theorem operandsOf_append (first second : List Condition) :
    operandsOf (first ++ second) = operandsOf first ++ operandsOf second := by
  induction first with
  | nil => rfl
  | cons condition rest ih => simp [operandsOf, ih]

/-- What is declared among some qualifiers is declared among more. -/
theorem Operand.DeclaredIn.mono {names more : List String} {operand : Operand}
    (h : operand.DeclaredIn names) (hsub : names ⊆ more) : operand.DeclaredIn more := by
  cases operand with
  | column source => exact hsub h
  | expression sql => trivial

/-! ## Renaming -/

@[simp] theorem Operand.renamed_nil (operand : Operand) : operand.renamed [] = operand := by
  cases operand <;> rfl

mutual

/-- Without new qualifiers a condition stays as it is. -/
theorem Condition.renamed_nil : (condition : Condition) → condition.renamed [] = condition
  | .compares lhs comparison value => by rw [Condition.renamed, lhs.renamed_nil]
  | .isNull lhs => by rw [Condition.renamed, lhs.renamed_nil]
  | .contains lhs needle => by rw [Condition.renamed, lhs.renamed_nil]
  | .impossible => by rw [Condition.renamed]
  | .isAmong lhs scope negated => by rw [Condition.renamed, lhs.renamed_nil]
  | .anyOf members => by rw [Condition.renamed, renamedAll_nil members]

theorem renamedAll_nil : (conditions : List Condition) → renamedAll [] conditions = conditions
  | [] => rfl
  | condition :: rest => by rw [renamedAll, condition.renamed_nil, renamedAll_nil rest]

end

mutual

/-- What a condition becomes depends on the new names of its operands alone. -/
theorem Condition.renamed_congr {renames other : Renames} : (condition : Condition) →
    (∀ operand ∈ condition.operands, operand.renamed renames = operand.renamed other) →
    condition.renamed renames = condition.renamed other
  | .compares lhs _ _, h => by
    rw [Condition.renamed, Condition.renamed, h lhs (List.mem_singleton_self lhs)]
  | .isNull lhs, h => by
    rw [Condition.renamed, Condition.renamed, h lhs (List.mem_singleton_self lhs)]
  | .contains lhs _, h => by
    rw [Condition.renamed, Condition.renamed, h lhs (List.mem_singleton_self lhs)]
  | .impossible, _ => by rw [Condition.renamed, Condition.renamed]
  | .isAmong lhs _ _, h => by
    rw [Condition.renamed, Condition.renamed, h lhs (List.mem_singleton_self lhs)]
  | .anyOf members, h => by
    rw [Condition.renamed, Condition.renamed, renamedAll_congr members h]

/-- Renamings that agree on the operands of conditions give the same conditions. -/
theorem renamedAll_congr {renames other : Renames} : (conditions : List Condition) →
    (∀ operand ∈ operandsOf conditions, operand.renamed renames = operand.renamed other) →
    renamedAll renames conditions = renamedAll other conditions
  | [], _ => rfl
  | condition :: rest, h => by
    rw [operandsOf] at h
    rw [renamedAll, renamedAll,
      condition.renamed_congr fun operand hmem => h operand (List.mem_append_left _ hmem),
      renamedAll_congr rest fun operand hmem => h operand (List.mem_append_right _ hmem)]

end

section

variable {Value : Type} [DecidableEq Value] {data : Data Value}

mutual

/-- A condition under new names is true on a line as the original is on another one, if the operands
have the same values. -/
theorem Condition.truth_renamed {renames : Renames} {view other : View Value} :
    (condition : Condition) →
    (∀ operand ∈ condition.operands,
      (operand.renamed renames).value data view = operand.value data other) →
    (condition.renamed renames).truth data view = condition.truth data other
  | .compares lhs comparison value, h => by
    rw [Condition.renamed, Condition.truth, Condition.truth, h lhs (List.mem_singleton_self lhs)]
  | .isNull lhs, h => by
    rw [Condition.renamed, Condition.truth, Condition.truth, h lhs (List.mem_singleton_self lhs)]
  | .contains lhs needle, h => by
    rw [Condition.renamed, Condition.truth, Condition.truth, h lhs (List.mem_singleton_self lhs)]
  | .impossible, _ => by
    rw [Condition.renamed, Condition.truth, Condition.truth]
  | .isAmong lhs scope negated, h => by
    have hlhs := h lhs (List.mem_singleton_self lhs)
    cases negated <;> rw [Condition.renamed, Condition.truth, Condition.truth, hlhs]
  | .anyOf members, h => by
    rw [Condition.renamed, Condition.truth, Condition.truth, truths_renamed members h]

/-- The list form of `Condition.truth_renamed`, for the members of an alternative. -/
theorem truths_renamed {renames : Renames} {view other : View Value} :
    (conditions : List Condition) →
    (∀ operand ∈ operandsOf conditions,
      (operand.renamed renames).value data view = operand.value data other) →
    truths data (renamedAll renames conditions) view = truths data conditions other
  | [], _ => rfl
  | condition :: rest, h => by
    rw [operandsOf] at h
    rw [renamedAll, truths, truths,
      condition.truth_renamed fun operand hmem => h operand (List.mem_append_left _ hmem),
      truths_renamed rest fun operand hmem => h operand (List.mem_append_right _ hmem)]

end

/-- The truth of a condition depends on the values of its operands alone. -/
theorem Condition.truth_congr {view other : View Value} {condition : Condition}
    (h : ∀ operand ∈ condition.operands, operand.value data view = operand.value data other) :
    condition.truth data view = condition.truth data other := by
  have hrenamed : (condition.renamed []).truth data view = condition.truth data other :=
    condition.truth_renamed fun operand hmem => by rw [operand.renamed_nil, h operand hmem]
  rwa [condition.renamed_nil] at hrenamed

end

end Sift
