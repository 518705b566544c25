import Sift.Proofs.SharedJoins

/-!
# Unambiguous scopes

A qualifier that is given twice makes a query ambiguous. A scope is unambiguous if neither itself
nor a scope among whose rows it looks gives a qualifier twice. Scopes that are to be excluded are
not looked into. What is part of an unambiguous scope is unambiguous.
-/

namespace Sift

mutual

/-- Whether the scopes among whose rows a condition looks are unambiguous. -/
def Condition.isUnambiguous : Condition → Bool
  | .isAmong _ scope false => scope.isUnambiguous
  | .anyOf members => areUnambiguous members
  | _ => true

/-- Whether no qualifier of a scope, nor of one among whose rows it looks, is given twice. -/
def Scope.isUnambiguous : Scope → Bool
  | ⟨_, table, _, joins, conditions, _, _⟩ =>
    decide (table :: joins.map Join.qualifier).Nodup && areUnambiguous conditions

def areUnambiguous : List Condition → Bool
  | [] => true
  | condition :: rest => condition.isUnambiguous && areUnambiguous rest

end

/-- A list of conditions is unambiguous if each of them is. -/
theorem areUnambiguous_iff {conditions : List Condition} :
    areUnambiguous conditions = true ↔
      ∀ condition ∈ conditions, condition.isUnambiguous = true := by
  induction conditions with
  | nil => simp [areUnambiguous]
  | cons condition rest ih => rw [areUnambiguous, Bool.and_eq_true, ih, List.forall_mem_cons]

namespace Scope

/-- A scope is unambiguous if no qualifier is given twice, in it and in every scope that one of its
conditions asks for membership. -/
theorem isUnambiguous_iff {scope : Scope} :
    scope.isUnambiguous = true ↔
      scope.names.Nodup ∧ ∀ condition ∈ scope.conditions, condition.isUnambiguous = true := by
  obtain ⟨model, table, primaryKey, joins, conditions, limit, offset⟩ := scope
  rw [isUnambiguous, Bool.and_eq_true, decide_eq_true_iff, areUnambiguous_iff]
  rfl

/-- Leaving joins and conditions out of an unambiguous scope leaves it unambiguous. -/
theorem PartOf.isUnambiguous {part whole : Scope} (h : part.PartOf whole)
    (hconditions : part.conditions ⊆ whole.conditions) (hwhole : whole.isUnambiguous = true) :
    part.isUnambiguous = true := by
  obtain ⟨hnodup, hall⟩ := isUnambiguous_iff.mp hwhole
  refine isUnambiguous_iff.mpr ⟨h.names_nodup hnodup, ?_⟩
  exact fun condition hmem => hall condition (hconditions hmem)

/-- What a scope extends is unambiguous if the scope is. So it is enough to ask the final result. -/
theorem Extends.isUnambiguous {scope base : Scope} (h : scope.Extends base)
    (hbase : base.joins.Nodup) (hscope : scope.isUnambiguous = true) :
    base.isUnambiguous = true := by
  have hpart : base.PartOf scope := ⟨h.table_eq.symm, h.joins_prefix.subset, hbase⟩
  exact hpart.isUnambiguous h.conditions_prefix.subset hscope

/-- The second scope of an unambiguous conjunction is unambiguous too: its joins are among those of
the conjunction, even where the first scope had them already. -/
theorem isUnambiguous_of_conjoin {scope other : Scope} (htable : other.table = scope.table)
    (hother : other.joins.Nodup) (h : (scope.conjoin other).isUnambiguous = true) :
    other.isUnambiguous = true := by
  refine (partOf_conjoin_right htable hother).isUnambiguous ?_ h
  rw [conditions_conjoin]
  exact List.subset_append_right _ _

/-- Every branch of an unambiguous union is unambiguous, as the union asks each of them for
membership. -/
theorem isUnambiguous_of_union {surface : Surface} {branches : List Scope}
    (h : (surface.union branches).isUnambiguous = true) :
    ∀ branch ∈ branches, branch.isUnambiguous = true := by
  intro branch hbranch
  obtain ⟨-, hall⟩ := isUnambiguous_iff.mp h
  have hany := hall _ (List.mem_singleton_self _)
  rw [Condition.isUnambiguous, areUnambiguous_iff, List.forall_mem_map] at hany
  -- the page is not looked at
  have hpageless : branch.withoutPage.isUnambiguous = true := hany branch hbranch
  have hboth := isUnambiguous_iff.mp hpageless
  exact isUnambiguous_iff.mpr hboth

end Scope

end Sift
