import Sift.Rule.Basic
import Sift.Surface.Association

/-!
# Filters and named scopes

A filter narrows a scope by arguments. It applies them to a target of the model's own table, or it
passes them on to a filter of a related model and joins what that one selects. Named scopes narrow a
scope in ways that the declaration of a model gives, or pass on in the same manner.

A filter holds everything it needs, so it keeps its meaning when the related model is declared anew.

Inversion never passes through an association. The plain filter of the related model is joined, and
the owners that it selects are excluded. An owner without related rows has nulls beside it. A filter
that ends in a column selects these if it looks for null and not otherwise; so its inversion keeps
the owner unless it is null that it looks for.
-/

namespace Sift

/-- A filter of a model. -/
inductive Filter
  /-- Applies arguments to a target of the model's own table. -/
  | own (types : ColumnTypes) (target : Target)
  /-- Passes arguments on to a filter of a related model. -/
  | through (join : Join) (related : Table) (next : Filter)

/-- Narrows a scope by a filter with arguments. -/
def Filter.narrow : Filter → Arguments → Scope → Except Rejection Scope
  | .own types target, arguments, scope => target.narrow types arguments scope
  | .through join related next, arguments, scope => do
    let matched ← next.narrow arguments.plain (Scope.all related)
    if arguments.invert then
      return scope.excluding (scope.cleared.conjoinVia join matched)
    else
      return scope.conjoinVia join matched

/-- What a declaration gives for a named scope: a function of the scope so far and the arguments. -/
abbrev ScopeFunction := Scope → ScopeArguments → Except Rejection Scope

/-- A named scope of a model. -/
inductive NamedScope
  /-- Calls the function of a declaration. -/
  | own (function : ScopeFunction)
  /-- Passes arguments on to a named scope of a related model. -/
  | through (join : Join) (related : Table) (next : NamedScope)
  /-- Stands for a named scope that a related model allows and does not have. -/
  | absent (name : String)

/-- Narrows a scope by a named scope with arguments. -/
def NamedScope.narrow : NamedScope → ScopeArguments → Scope → Except Rejection Scope
  | .own function, arguments, scope => function scope arguments
  | .through join related next, arguments, scope => do
    let matched ← next.narrow arguments (Scope.all related)
    return scope.conjoinVia join matched
  | .absent name, _, _ => .error (.unfilterable name)

end Sift
