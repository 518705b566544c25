import Sift.Proofs.Shapes
import Sift.Proofs.WellScopedResults

/-!
# Rules that differ in values

Two rule trees are alike if they differ in parameters only, where each two parameters are both null
or both not, and, compared for equality with a column, both or neither denote a value of its type.
Filtering by the one and by the other gives scopes of one shape. So the text of the statement says
nothing about the values in the rules.
-/

namespace Sift

/-- The type of the column that a filter of a model is about in the end; none if it is about an
expression. -/
def Filter.columnType? (model : String) : Filter → Option ColumnType
  | .own types (.column name) => types model name
  | .own _ (.expression _) => none
  | .through _ related next => next.columnType? related.model

/-- Two parameters of an operator on a target of a type that a statement cannot tell apart. -/
structure ParamsAlike (type : Option ColumnType) (operator : Operator) (param other : Json) :
    Prop where
  isNull_eq : param.isNull = other.isNull
  denotes_eq : operator = .equals → ∀ known, type = some known →
    (Coercion.ofJson? known param).isSome = (Coercion.ofJson? known other).isSome

mutual

/-- Two rules without named scopes that differ in parameters only, and those are alike. -/
inductive Surface.Alike (surface : Surface) : Rule → Rule → Prop
  | blank : Alike surface .blank .blank
  | leaf {attr : String} {operator : Operator} {param other : Json} (invert : Bool)
      (hparams : ∀ filter, surface.filters.lookup attr = some filter →
        ParamsAlike (filter.columnType? surface.model) operator param other) :
    Alike surface (.leaf attr ⟨operator, param, invert⟩) (.leaf attr ⟨operator, other, invert⟩)
  | composite {rules others : List Rule} (conjunction : Conjunction)
      (hrules : AllAlike surface rules others) :
    Alike surface (.composite rules conjunction) (.composite others conjunction)

/-- Two lists of rules that are alike one by one. -/
inductive Surface.AllAlike (surface : Surface) : List Rule → List Rule → Prop
  | nil : AllAlike surface [] []
  | cons {rule other : Rule} {rest others : List Rule} (hrule : Alike surface rule other)
      (hrest : AllAlike surface rest others) : AllAlike surface (rule :: rest) (other :: others)

end

/-! ## Filters -/

section

variable {type : Option ColumnType} {operator : Operator} {param other : Json}

/-- Alike parameters give comparisons of one shape: both look for null, or both bind a value, or
neither denotes one. -/
theorem ParamsAlike.shape_equality (h : ParamsAlike type .equals param other) (lhs : Operand) :
    (equality lhs type param).shape = (equality lhs type other).shape := by
  unfold equality
  rw [h.isNull_eq]
  by_cases hnull : other.isNull
  · rw [if_pos hnull, if_pos hnull]
  rw [if_neg hnull, if_neg hnull]
  cases type with
  | none =>
    dsimp only
    rw [Condition.shape, Condition.shape]
  | some known =>
    have hdenotes := h.denotes_eq rfl known rfl
    dsimp only
    -- either both parameters denote a value of the type, or nothing equals either of them
    cases hparam : Coercion.ofJson? known param with
    | none =>
      cases hother : Coercion.ofJson? known other with
      | none => rfl
      | some changed => simp [hparam, hother] at hdenotes
    | some value =>
      cases hother : Coercion.ofJson? known other with
      | none => simp [hparam, hother] at hdenotes
      | some changed =>
        dsimp only
        rw [Condition.shape, Condition.shape]

/-- The conditions of an operator with parameters that are alike have one shape. -/
theorem ParamsAlike.shapes_conditions (h : ParamsAlike type operator param other) {lhs : Operand}
    {conditions changed : List Condition}
    (hparam : operator.conditions lhs type param = .ok conditions)
    (hother : operator.conditions lhs type other = .ok changed) :
    shapes conditions = shapes changed := by
  cases operator with
  | equals =>
    cases hparam
    cases hother
    rw [shapes, shapes, h.shape_equality lhs, shapes, shapes]
  | within =>
    obtain ⟨⟨low, high⟩, -, hparam⟩ := bind_eq_ok.mp hparam
    obtain ⟨⟨least, greatest⟩, -, hother⟩ := bind_eq_ok.mp hother
    cases hparam
    cases hother
    simp only [shapes, Condition.shape]
  | contains | atLeast | atMost =>
    cases hparam
    cases hother
    simp only [shapes, Condition.shape]

/-- The type that an operator is checked against is the type of the column at the end of the filter.
-/
theorem Target.type_eq {types : ColumnTypes} {model : String} {target : Target}
    (h : target.type types model operator = .ok type) :
    type = (Filter.own types target).columnType? model := by
  cases target with
  | expression sql =>
    cases h
    rfl
  | column name =>
    rw [Target.type] at h
    cases hknown : types model name with
    | none =>
      rw [hknown] at h
      cases h
    | some known =>
      rw [hknown] at h
      dsimp only at h
      split at h
      · cases h
        exact hknown.symm
      · cases h

/-- A plain filter with parameters that are alike selects by conditions of one shape. -/
theorem Filter.shape_narrow_plain {filter : Filter} {scope result changed : Scope}
    (h : ParamsAlike (filter.columnType? scope.model) operator param other)
    (hparam : filter.narrow ⟨operator, param, false⟩ scope = .ok result)
    (hother : filter.narrow ⟨operator, other, false⟩ scope = .ok changed) :
    result.shape = changed.shape := by
  induction filter generalizing scope result changed with
  | own types target =>
    obtain ⟨conditions, hconditions, hparam⟩ := bind_eq_ok.mp hparam
    obtain ⟨replaced, hreplaced, hother⟩ := bind_eq_ok.mp hother
    cases hparam
    cases hother
    obtain ⟨type, htype, hconditions⟩ := bind_eq_ok.mp hconditions
    obtain ⟨same, hsame, hreplaced⟩ := bind_eq_ok.mp hreplaced
    rw [← Target.type_eq htype] at h
    cases htype.symm.trans hsame
    rw [Scope.shape_narrow, Scope.shape_narrow, h.shapes_conditions hconditions hreplaced]
  | through join related next ih =>
    obtain ⟨matched, hmatched, hparam⟩ := bind_eq_ok.mp hparam
    obtain ⟨replaced, hreplaced, hother⟩ := bind_eq_ok.mp hother
    cases hparam
    cases hother
    rw [Scope.shape_conjoinVia, Scope.shape_conjoinVia, ih h hmatched hreplaced]

end

/-! ## Rule trees -/

/-- Two scopes of a surface's rows with one shape. -/
structure Surface.SameShape (surface : Surface) (scope other : Scope) : Prop where
  cleared_eq : scope.cleared = surface.all
  shape_eq : scope.shape = other.shape

namespace Surface

variable {surface : Surface}

theorem SameShape.all (surface : Surface) : surface.SameShape surface.all surface.all := ⟨rfl, rfl⟩

theorem SameShape.cleared_eq_all {scope other : Scope} (h : surface.SameShape scope other) :
    other.cleared = surface.all :=
  (Scope.cleared_eq_of_shape_eq h.shape_eq).symm.trans h.cleared_eq

/-- Conjoining with scopes of one shape keeps two scopes alike. -/
theorem SameShape.conjoin {scope other added changed : Scope} (h : surface.SameShape scope other)
    (hadded : added.shape = changed.shape) :
    surface.SameShape (scope.conjoin added) (other.conjoin changed) where
  cleared_eq := h.cleared_eq
  shape_eq := by rw [Scope.shape_conjoin, Scope.shape_conjoin, h.shape_eq, hadded]

/-- So does excluding scopes of one shape. -/
theorem SameShape.excluding {scope other removed changed : Scope}
    (h : surface.SameShape scope other) (hremoved : removed.shape = changed.shape) :
    surface.SameShape (scope.excluding removed) (other.excluding changed) where
  cleared_eq := h.cleared_eq
  shape_eq := by rw [Scope.shape_excluding, Scope.shape_excluding, h.shape_eq, hremoved]

/-- Leaves that are alike narrow scopes of one shape to scopes of one shape. -/
theorem SameShape.leaf {scope before result changed : Scope} (h : surface.SameShape scope before)
    {attr : String} {operator : Operator} {param other : Json} {invert : Bool}
    (hparams : ∀ filter, surface.filters.lookup attr = some filter →
      ParamsAlike (filter.columnType? surface.model) operator param other)
    (hrule : surface.narrowByRule (.leaf attr ⟨operator, param, invert⟩) scope = .ok result)
    (hother : surface.narrowByRule (.leaf attr ⟨operator, other, invert⟩) before = .ok changed) :
    surface.SameShape result changed := by
  obtain ⟨filter, hlookup, hnarrow⟩ := narrowByAttribute_eq_ok.mp hrule
  obtain ⟨same, hsame, hnarrow_other⟩ := narrowByAttribute_eq_ok.mp hother
  cases hlookup.symm.trans hsame
  -- with and without inversion, the filter is applied to all rows of the table
  cases invert with
  | false =>
    rw [Filter.narrow_plain, h.cleared_eq, map_eq_ok] at hnarrow
    rw [Filter.narrow_plain, h.cleared_eq_all, map_eq_ok] at hnarrow_other
    obtain ⟨matched, hmatched, rfl⟩ := hnarrow
    obtain ⟨replaced, hreplaced, rfl⟩ := hnarrow_other
    exact h.conjoin (Filter.shape_narrow_plain (hparams filter hlookup) hmatched hreplaced)
  | true =>
    rw [Filter.narrow_inverted, h.cleared_eq, map_eq_ok] at hnarrow
    rw [Filter.narrow_inverted, h.cleared_eq_all, map_eq_ok] at hnarrow_other
    obtain ⟨matched, hmatched, rfl⟩ := hnarrow
    obtain ⟨replaced, hreplaced, rfl⟩ := hnarrow_other
    exact h.excluding (Filter.shape_narrow_plain (hparams filter hlookup) hmatched hreplaced)

/-- Alike lists of rules combine to scopes of one shape, in either way. -/
theorem SameShape.combine {rules others : List Rule} (h : surface.AllAlike rules others)
    (hall : ∀ result changed, surface.narrowByAll rules surface.all = .ok result →
      surface.narrowByAll others surface.all = .ok changed → surface.SameShape result changed)
    (hany : ∀ branches changed, surface.branches rules = .ok branches →
      surface.branches others = .ok changed →
      branches.map Scope.shape = changed.map Scope.shape)
    {conjunction : Conjunction} {combined changed : Scope}
    (hcombined : surface.combine rules conjunction = .ok combined)
    (hchanged : surface.combine others conjunction = .ok changed) :
    combined.shape = changed.shape := by
  cases conjunction with
  | exclusive => exact (hall combined changed hcombined hchanged).shape_eq
  | inclusive =>
    cases h with
    | nil =>
      cases hcombined
      cases hchanged
      rfl
    | cons =>
      obtain ⟨branches, hbranches, hcombined⟩ := bind_eq_ok.mp hcombined
      obtain ⟨replaced, hreplaced, hchanged⟩ := bind_eq_ok.mp hchanged
      cases hcombined
      cases hchanged
      rw [shape_union, shape_union, hany branches replaced hbranches hreplaced]

end Surface

mutual

/-- Rules that are alike narrow scopes of one shape to scopes of one shape. -/
theorem Surface.SameShape.rule {surface : Surface} : (rule : Rule) →
    ∀ {other : Rule} {scope before result changed : Scope}, surface.Alike rule other →
      surface.SameShape scope before → surface.narrowByRule rule scope = .ok result →
      surface.narrowByRule other before = .ok changed → surface.SameShape result changed
  | .blank, _, _, _, _, _, .blank, hscope, hrule, hother => by
    cases hrule
    cases hother
    exact hscope
  | .leaf _ _, _, _, _, _, _, .leaf _ hparams, hscope, hrule, hother =>
    hscope.leaf hparams hrule hother
  | .composite rules _, _, _, _, _, _, .composite _ hrules, hscope, hrule, hother => by
    rw [Surface.narrowByRule_composite, map_eq_ok] at hrule hother
    obtain ⟨combined, hcombined, rfl⟩ := hrule
    obtain ⟨replaced, hreplaced, rfl⟩ := hother
    refine hscope.conjoin (Surface.SameShape.combine hrules ?_ ?_ hcombined hreplaced)
    · exact fun _ _ => Surface.SameShape.rules rules hrules (.all surface)
    · exact fun _ _ => Surface.SameShape.branches rules hrules

/-- Alike rules that must all hold keep two scopes alike, one rule after the other. -/
theorem Surface.SameShape.rules {surface : Surface} : (rules : List Rule) →
    ∀ {others : List Rule} {scope before result changed : Scope}, surface.AllAlike rules others →
      surface.SameShape scope before → surface.narrowByAll rules scope = .ok result →
      surface.narrowByAll others before = .ok changed → surface.SameShape result changed
  | [], _, _, _, _, _, .nil, hscope, hrules, hothers => by
    cases hrules
    cases hothers
    exact hscope
  | rule :: rest, _, _, _, _, _, .cons hrule hrest, hscope, hrules, hothers => by
    obtain ⟨narrowed, hnarrowed, hrules⟩ := bind_eq_ok.mp hrules
    obtain ⟨replaced, hreplaced, hothers⟩ := bind_eq_ok.mp hothers
    have hfirst := Surface.SameShape.rule rule hrule hscope hnarrowed hreplaced
    exact Surface.SameShape.rules rest hrest hfirst hrules hothers

theorem Surface.SameShape.branches {surface : Surface} : (rules : List Rule) →
    ∀ {others : List Rule} {branches changed : List Scope}, surface.AllAlike rules others →
      surface.branches rules = .ok branches → surface.branches others = .ok changed →
      branches.map Scope.shape = changed.map Scope.shape
  | [], _, _, _, .nil, hbranches, hchanged => by
    cases hbranches
    cases hchanged
    rfl
  | rule :: rest, _, _, _, .cons hrule hrest, hbranches, hchanged => by
    obtain ⟨branch, hbranch, hbranches⟩ := bind_eq_ok.mp hbranches
    obtain ⟨further, hfurther, hbranches⟩ := bind_eq_ok.mp hbranches
    obtain ⟨replaced, hreplaced, hchanged⟩ := bind_eq_ok.mp hchanged
    obtain ⟨others, hothers, hchanged⟩ := bind_eq_ok.mp hchanged
    cases hbranches
    cases hchanged
    have hfirst := Surface.SameShape.rule rule hrule (.all surface) hbranch hreplaced
    rw [List.map_cons, List.map_cons, hfirst.shape_eq,
      Surface.SameShape.branches rest hrest hfurther hothers]

end

/-- Filtering any base by rules that are alike gives statements with one text and as many
parameters: no value in the rules shows in the text. -/
theorem Surface.sql_narrowByRules_alike {surface : Surface} {base : Scope}
    {rules others : List Rule} (halike : surface.AllAlike rules others)
    {conjunction : Conjunction} {result changed : Scope}
    (hrules : surface.narrowByRules base rules conjunction = .ok result)
    (hothers : surface.narrowByRules base others conjunction = .ok changed) (database : Database) :
    result.sql database = changed.sql database ∧
      (result.params database).length = (changed.params database).length := by
  refine Scope.sql_eq_of_shape_eq database ?_
  rcases narrowByRules_eq_ok.mp hrules with ⟨rfl, rfl⟩ | ⟨hne, combined, hcombined, rfl⟩
  · cases halike
    cases hothers
    rfl
  rcases narrowByRules_eq_ok.mp hothers with ⟨rfl, rfl⟩ | ⟨-, replaced, hreplaced, rfl⟩
  · cases halike
    exact absurd rfl hne
  rw [Scope.shape_conjoin, Scope.shape_conjoin]
  refine congrArg _ (SameShape.combine halike ?_ ?_ hcombined hreplaced)
  · exact fun _ _ => SameShape.rules rules halike (.all surface)
  · exact fun _ _ => SameShape.branches rules halike

/-! ### Searching visits -/

namespace Surface

/-- Visits to shops with an offer that mentions a text, outside the cities of a size or at any price
in a range. -/
def searchRules (needle size : String) (prices : List Json) : List Rule :=
  [.leaf "shop_offers_total" ⟨.contains, .string needle, false⟩,
    .composite [.leaf "shop_city_size" ⟨.equals, .string size, true⟩,
      .composite [.blank, .leaf "shop_offers_price" ⟨.within, .array prices, false⟩] .exclusive]
      .inclusive]

theorem allAlike_searchRules (needle other : String) (prices otherPrices : List Json) :
    visits.AllAlike (searchRules needle "5" prices) (searchRules other " 70 " otherPrices) := by
  have hneedle : ∀ type, ParamsAlike type .contains (.string needle) (.string other) :=
    fun _ => ⟨rfl, nofun⟩
  have hprices : ∀ type, ParamsAlike type .within (.array prices) (.array otherPrices) :=
    fun _ => ⟨rfl, nofun⟩
  have hsize : ∀ filter, visits.filters.lookup "shop_city_size" = some filter →
      ParamsAlike (filter.columnType? visits.model) .equals (.string "5") (.string " 70 ") := by
    intro filter hlookup
    have hcities : visits.filters.lookup "shop_city_size" = some _ := rfl
    cases hcities.symm.trans hlookup
    refine ⟨rfl, fun _ known hknown => ?_⟩
    have hinteger : some ColumnType.integer = some known := hknown
    cases hinteger
    rfl
  refine .cons (.leaf false fun _ _ => hneedle _) (.cons ?_ .nil)
  refine .composite .inclusive (.cons (.leaf true hsize) (.cons ?_ .nil))
  exact .composite .exclusive (.cons .blank (.cons (.leaf false fun _ _ => hprices _) .nil))

/-- A search for a text with a quote and a search for a placeholder have one statement. -/
theorem sql_narrowByRules_alike_searches : ∃ result changed : Scope,
    visits.AllAlike (searchRules "'; --" "5" [.number (.integer 1), .number (.integer 2)])
      (searchRules "$1" " 70 " [.string "b", .string "a"]) ∧
    visits.narrowByRules visits.all
      (searchRules "'; --" "5" [.number (.integer 1), .number (.integer 2)]) .exclusive =
        .ok result ∧
    visits.narrowByRules visits.all
      (searchRules "$1" " 70 " [.string "b", .string "a"]) .exclusive = .ok changed ∧
    result.params .postgres = [.string "'; --", .number (.integer 5), .number (.integer 1),
      .number (.integer 2)] ∧
    changed.params .postgres = [.string "$1", .number (.integer 70), .string "a", .string "b"] ∧
    result.sql .postgres = changed.sql .postgres ∧
    (result.params .postgres).length = (changed.params .postgres).length := by
  have halike : visits.AllAlike
      (searchRules "'; --" "5" [.number (.integer 1), .number (.integer 2)])
      (searchRules "$1" " 70 " [.string "b", .string "a"]) := allAlike_searchRules _ _ _ _
  have hresult : visits.narrowByRules visits.all
      (searchRules "'; --" "5" [.number (.integer 1), .number (.integer 2)]) .exclusive =
        .ok _ := rfl
  have hchanged : visits.narrowByRules visits.all
      (searchRules "$1" " 70 " [.string "b", .string "a"]) .exclusive = .ok _ := rfl
  exact ⟨_, _, halike, hresult, hchanged, rfl, rfl,
    sql_narrowByRules_alike halike hresult hchanged .postgres⟩

end Surface

end Sift
