import Sift.Proofs.BoundValues
import Sift.Proofs.Contributions

/-!
# Rules that call no named scope

What such rules do on a surface does not depend on its named scopes, so they do the same on the
surface without any. There is nothing on it that could give a scope of unknown form: all that rules
leave of all rows is well scoped. And each of these rules conjoins the scope before it with what it
leaves of all rows, so rules that must all hold conjoin what each of them leaves on its own.
-/

namespace Sift

namespace Surface

/-- The surface without its named scopes. -/
def withoutScopes (surface : Surface) : Surface :=
  { surface with scopes := [] }

variable {surface : Surface}

theorem lacksScopes_withoutScopes (surface : Surface) : surface.withoutScopes.LacksScopes :=
  fun _ hentry => absurd hentry List.not_mem_nil

/-- Rules combine to the same without named scopes if they narrow to the same, in either way. -/
theorem combine_withoutScopes {rules : List Rule}
    (hall : surface.withoutScopes.narrowByAll rules surface.all =
      surface.narrowByAll rules surface.all)
    (hany : surface.withoutScopes.branches rules = surface.branches rules)
    (conjunction : Conjunction) :
    surface.withoutScopes.combine rules conjunction = surface.combine rules conjunction := by
  cases conjunction with
  | exclusive => exact hall
  | inclusive =>
    cases rules with
    | nil => rfl
    | cons first rest =>
      rw [combine, combine, hany]
      rfl

end Surface

mutual

/-- A rule that calls no named scope does the same without any. -/
theorem Surface.narrowByRule_withoutScopes {surface : Surface} : (rule : Rule) →
    rule.CallsNoScope → ∀ scope,
      surface.withoutScopes.narrowByRule rule scope = surface.narrowByRule rule scope
  | .blank, _, scope => by rw [narrowByRule, narrowByRule]
  | .scope _ _, hrule, _ => hrule.elim
  | .leaf attr arguments, _, scope => by
    rw [narrowByRule, narrowByRule]
    rfl
  | .composite rules conjunction, hrules, scope => by
    rw [narrowByRule_composite, narrowByRule_composite,
      combine_withoutScopes (narrowByAll_withoutScopes rules hrules surface.all)
        (branches_withoutScopes rules hrules)]

/-- Rules that call no named scope do not notice that there are none. -/
theorem Surface.narrowByAll_withoutScopes {surface : Surface} : (rules : List Rule) →
    CallNoScope rules → ∀ scope,
      surface.withoutScopes.narrowByAll rules scope = surface.narrowByAll rules scope
  | [], _, scope => by rw [narrowByAll, narrowByAll]
  | rule :: rest, ⟨hrule, hrest⟩, scope => by
    rw [narrowByAll, narrowByAll, narrowByRule_withoutScopes rule hrule scope]
    exact congrArg _ (funext fun narrowed => narrowByAll_withoutScopes rest hrest narrowed)

theorem Surface.branches_withoutScopes {surface : Surface} : (rules : List Rule) →
    CallNoScope rules → surface.withoutScopes.branches rules = surface.branches rules
  | [], _ => by rw [branches, branches]
  | rule :: rest, ⟨hrule, hrest⟩ => by
    have hall : surface.withoutScopes.all = surface.all := rfl
    rw [branches, branches, hall, narrowByRule_withoutScopes rule hrule surface.all,
      branches_withoutScopes rest hrest]

end

/-- A list calls no named scope if none of its rules does. -/
theorem callNoScope_iff {rules : List Rule} :
    CallNoScope rules ↔ ∀ rule ∈ rules, rule.CallsNoScope := by
  induction rules with
  | nil => simp [CallNoScope]
  | cons rule rest ih => rw [CallNoScope, ih, List.forall_mem_cons]

namespace Surface

variable {surface : Surface}

/-- Rules that call no named scope leave well scoped what they leave of all rows. -/
theorem scopedOver_of_callNoScope (hfollow : surface.FiltersFollow) {rules : List Rule}
    (hrules : CallNoScope rules) {combined : Scope}
    (h : surface.narrowByAll rules surface.all = .ok combined) :
    combined.ScopedOver surface.table := by
  have hfollow_without : surface.withoutScopes.FiltersFollow := hfollow
  have hkeeps := hfollow_without.keeps_scopedOver
  rw [← narrowByAll_withoutScopes rules hrules] at h
  have hthroughout := hkeeps.throughout_rules surface.lacksScopes_withoutScopes rules
    hkeeps.throughout_all h
  exact hthroughout combined (List.mem_cons_self ..)

/-- A rule that calls no named scope contributes the same to every scope. -/
theorem contributes_of_callsNoScope {rule : Rule} (h : rule.CallsNoScope) :
    surface.Contributes rule := by
  intro scope hscope
  cases rule with
  | blank => exact congrArg Except.ok (scope.conjoin_all surface.table).symm
  | scope name param => exact h.elim
  | leaf attr arguments => exact narrowByRule_leaf ⟨attr, arguments, rfl⟩ hscope
  | composite rules conjunction =>
    have hall : scope.conjoin surface.all = scope := scope.conjoin_all surface.table
    rw [narrowByRule_composite, narrowByRule_composite, map_conjoin_map_conjoin, hall]

/-- Rules that must all hold conjoin what each of them leaves of all rows. -/
theorem narrowByAll_eq_foldl_branches {rules : List Rule} (hrules : CallNoScope rules) :
    surface.narrowByAll rules surface.all =
      (surface.branches rules).map (List.foldl Scope.conjoin surface.all) :=
  narrowByAll_eq_foldl (fun rule hrule =>
    contributes_of_callsNoScope (callNoScope_iff.mp hrules rule hrule)) surface.over_all

end Surface

end Sift
