import Sift.Rule.Reader
import Sift.Surface.Basic

/-!
# Combining rules

The rules of a list become one scope. If all of them must hold, each rule narrows what the rules
before it have left. If one of them is enough, each rule is applied to all rows on its own, and the
union of the primary keys is taken; pages that named scopes set there do not count.

A composite counts as one rule of the list around it: its rules are combined on their own and the
result is conjoined. A list of rules filters a base scope in the same way, so nothing that the base
requires is ever lost.
-/

namespace Sift

/-- What a rule calls for. -/
inductive Call
  /-- Nothing. -/
  | nothing
  /-- A named scope. -/
  | namedScope (name : String) (arguments : ScopeArguments)
  /-- A filter. -/
  | filter (name : String) (arguments : Arguments)
  /-- The combination of other rules. -/
  | combination (rules : List Rule) (conjunction : Conjunction)

namespace Surface

/-- The arguments with which a rule calls a named scope. Only allowed ones can be called. -/
def callable (surface : Surface) (name : String) (param : Json) :
    Except Rejection ScopeArguments :=
  if name ∈ surface.allowedScopes then .ok (.ofParam param) else .error (.unfilterable name)

/-- Says what a rule calls for. -/
def callOf (surface : Surface) : Rule → Except Rejection Call
  | .blank => .ok .nothing
  | .scope name param => do
    let arguments ← surface.callable name param
    return .namedScope name arguments
  | .leaf attr arguments => .ok (.filter (filterName attr) arguments)
  | .composite rules conjunction => .ok (.combination rules conjunction)

/-- The scope of the rows that at least one of several scopes selects. -/
def union (surface : Surface) (branches : List Scope) : Scope :=
  surface.all.narrow
    [.anyOf (branches.map fun branch => .isAmong surface.all.key branch.withoutPage false)]

mutual

/-- Narrows a scope by a rule. -/
def narrowByRule (surface : Surface) : Rule → Scope → Except Rejection Scope
  | .blank, scope => .ok scope
  | .scope name param, scope => do
    let arguments ← surface.callable name param
    surface.narrowByScope name arguments scope
  | .leaf attr arguments, scope => surface.narrowByAttribute attr arguments scope
  | .composite rules .exclusive, scope => do
    let combined ← surface.narrowByAll rules surface.all
    return scope.conjoin combined
  | .composite [] .inclusive, scope => .ok (scope.conjoin surface.all)
  | .composite (first :: rest) .inclusive, scope => do
    let branch ← surface.narrowByRule first surface.all
    let branches ← surface.branches rest
    return scope.conjoin (surface.union (branch :: branches))

/-- Narrows a scope by all rules, one after the other. -/
def narrowByAll (surface : Surface) : List Rule → Scope → Except Rejection Scope
  | [], scope => .ok scope
  | rule :: rest, scope => do
    let narrowed ← surface.narrowByRule rule scope
    surface.narrowByAll rest narrowed

/-- Narrows the scope of all rows by each rule on its own. -/
def branches (surface : Surface) : List Rule → Except Rejection (List Scope)
  | [] => .ok []
  | rule :: rest => do
    let branch ← surface.narrowByRule rule surface.all
    let branches ← surface.branches rest
    return branch :: branches

end

/-- The scope that a list of rules stands for. An empty list stands for all rows. -/
def combine (surface : Surface) (rules : List Rule) (conjunction : Conjunction) :
    Except Rejection Scope :=
  match conjunction, rules with
  | .exclusive, rules => surface.narrowByAll rules surface.all
  | .inclusive, [] => .ok surface.all
  | .inclusive, first :: rest => do
    let branches ← surface.branches (first :: rest)
    return surface.union branches

/-- A composite conjoins what its rules stand for. -/
theorem narrowByRule_composite (surface : Surface) (rules : List Rule)
    (conjunction : Conjunction) (scope : Scope) :
    surface.narrowByRule (.composite rules conjunction) scope =
      (surface.combine rules conjunction).map scope.conjoin := by
  cases conjunction with
  | exclusive =>
    cases h : surface.narrowByAll rules surface.all <;>
      simp [narrowByRule, combine, h, bind, Except.bind, Except.map, pure, Except.pure]
  | inclusive =>
    cases rules with
    | nil => simp [narrowByRule, combine, Except.map]
    | cons first rest =>
      cases h : surface.narrowByRule first surface.all with
      | error e =>
        simp [narrowByRule, branches, combine, h, bind, Except.bind, Except.map]
      | ok branch =>
        cases t : surface.branches rest <;>
          simp [narrowByRule, branches, combine, h, t, bind, Except.bind, Except.map, pure,
            Except.pure]

/-- Filters a base scope by rules. Without rules the base is left as it is. -/
def narrowByRules (surface : Surface) (base : Scope) (rules : List Rule)
    (conjunction : Conjunction) : Except Rejection Scope :=
  if rules.isEmpty then .ok base
  else (surface.combine rules conjunction).map base.conjoin

/-! ## Untrusted rules -/

/-- The reader of rules for this model. -/
def reader (surface : Surface) : RuleReader :=
  ⟨surface.allowedScopes, surface.limits⟩

/-- Filters a base scope by untrusted rules. -/
def narrowByJson (surface : Surface) (base : Scope) (rules : Json) (conjunction : Conjunction) :
    Except Rejection Scope := do
  let rules ← (surface.reader.read rules).result
  surface.narrowByRules base rules conjunction

/-- Filters a base scope by an untrusted text of rules that a decoder makes a value of. -/
def narrowByTextWith (surface : Surface) (decode : Json.Decoder) (base : Scope) (text : String)
    (conjunction : Conjunction) : Except Rejection Scope := do
  let rules ← (surface.reader.readTextWith decode text).result
  surface.narrowByRules base rules conjunction

/-- Filters a base scope by an untrusted JSON text of rules. -/
def narrowByText (surface : Surface) (base : Scope) (text : String) (conjunction : Conjunction) :
    Except Rejection Scope :=
  surface.narrowByTextWith (Json.read? .value) base text conjunction

end Surface

end Sift
