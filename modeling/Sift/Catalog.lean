import Sift.Surface.Composition
import Sift.Surface.Declaration

/-!
# Catalogs

A catalog keeps the surface of each model. A model is registered behind the models that it relates
to. Registering a model again replaces its surface; other surfaces keep what they took from the old
one. A declaration that is rejected leaves the catalog as it was.
-/

namespace Sift

/-- The surfaces of the models. -/
structure Catalog where
  /-- The limits for surfaces that have none of their own. -/
  limits : Limits
  /-- The surfaces by model. -/
  surfaces : Keyed Surface

namespace Catalog

/-- The catalog without models. -/
def empty (limits : Limits) : Catalog :=
  ⟨limits, []⟩

/-- The surface of a model. -/
def get? (catalog : Catalog) (model : String) : Option Surface :=
  catalog.surfaces.lookup model

/-- Whether a model is registered. -/
def contains (catalog : Catalog) (model : String) : Bool :=
  (catalog.get? model).isSome

/-- The registered models, in order. -/
def models (catalog : Catalog) : List String :=
  sortNames (Keyed.keys catalog.surfaces)

/-- Puts a surface in, in the place of the old one for its model. -/
def insert (catalog : Catalog) (surface : Surface) : Catalog :=
  { catalog with surfaces := catalog.surfaces.insert surface.model surface }

/-- Compiles a declaration against the registered models and registers its own model. -/
def register (catalog : Catalog) (declaration : Declaration) :
    Except Rejection (Catalog × Surface) := do
  let surface ← declaration.compile catalog.get? catalog.limits
  return (catalog.insert surface, surface)

/-- Filters a base scope by untrusted rules for its model. -/
def narrow (catalog : Catalog) (base : Scope) (rules : Json) (conjunction : Conjunction) :
    Except Rejection Scope :=
  match catalog.get? base.model with
  | some surface => surface.narrowByJson base rules conjunction
  | none => .error (.invalid (.unknownModel base.model))

@[simp] theorem get?_insert (catalog : Catalog) (surface : Surface) :
    (catalog.insert surface).get? surface.model = some surface :=
  Keyed.lookup_insert_self _ _ _

theorem get?_insert_of_ne (catalog : Catalog) (surface : Surface) {model : String}
    (ne : model ≠ surface.model) : (catalog.insert surface).get? model = catalog.get? model :=
  Keyed.lookup_insert_of_ne _ _ ne

end Catalog

end Sift
