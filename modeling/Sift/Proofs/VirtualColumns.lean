import Sift.Proofs.DeclaredFilters
import Sift.Proofs.InnerScopes

/-!
# Virtual columns that are declared more than once

A virtual column may be declared more than once, with other expressions. Two places remember it: the
filter under its name, which each later declaration replaces, and the list of virtual columns, in
which the earliest declaration is found. So the filter uses the expression that was declared last,
the one that was declared first is reported, and the name has one meaning exactly if the two are the
same.

An attribute of the same name does not enter: virtual columns take their names after the attributes.
-/

namespace Sift

namespace Keyed

theorem lookup_map {α β : Type} (f : α → β) (entries : List (String × α)) (key : String) :
    (entries.map fun entry => (entry.1, f entry.2)).lookup key = (entries.lookup key).map f := by
  induction entries with
  | nil => rfl
  | cons entry rest ih =>
    rw [List.map_cons, List.lookup_cons, List.lookup_cons, ih]
    cases key == entry.1 <;> rfl

theorem exists_lookup_reverse {α : Type} {entries : List (String × α)} {key : String}
    (h : key ∈ entries.map Prod.fst) : ∃ value, entries.reverse.lookup key = some value := by
  rw [← lookup_ofList]
  exact exists_lookup_of_mem_keys ((mem_keys_ofList entries key).mpr h)

/-- Under different keys, nothing is written over. -/
theorem lookup_reverse_of_nodup {α : Type} {entries : List (String × α)}
    (hnodup : (entries.map Prod.fst).Nodup) {key : String} (h : key ∈ entries.map Prod.fst) :
    entries.reverse.lookup key = entries.lookup key := by
  obtain ⟨value, hvalue⟩ := exists_lookup_of_mem_keys h
  rw [hvalue, ← lookup_ofList]
  exact lookup_ofList_of_nodup hnodup (mem_of_lookup hvalue)

end Keyed

/-! ## Expressions in the conditions of a scope -/

/-- An expression is in the conditions of a scope or of one inside it. -/
def Scope.Uses (scope : Scope) (sql : String) : Prop :=
  ∃ part ∈ scope :: scope.inner, .expression sql ∈ operandsOf part.conditions

/-- What is excluded is compared with the primary key, so no other expressions come in. -/
theorem Scope.uses_excluding {scope other : Scope} {sql : String} :
    (scope.excluding other).Uses sql ↔ scope.Uses sql ∨ other.Uses sql := by
  have hown : .expression sql ∈ operandsOf (scope.excluding other).conditions ↔
      .expression sql ∈ operandsOf scope.conditions := by
    simp [excluding, operandsOf_append, operandsOf, Condition.operands, key]
  simp only [Uses, inner_excluding, List.mem_cons, List.mem_append, or_and_right, exists_or,
    exists_eq_left, hown, or_assoc]
  rfl

/-- An operator mentions a target without a type and nothing else. -/
theorem Operator.mem_operandsOf_untyped {operator : Operator} {lhs operand : Operand} {param : Json}
    {conditions : List Condition} (h : operator.conditions lhs none param = .ok conditions) :
    operand ∈ operandsOf conditions ↔ operand = lhs := by
  have hmentions : lhs ∈ operandsOf conditions := by
    cases operator with
    | equals =>
      cases h
      unfold equality
      split <;> exact List.mem_singleton_self lhs
    | contains | atLeast | atMost =>
      cases h
      exact List.mem_singleton_self lhs
    | within =>
      obtain ⟨⟨low, high⟩, -, h⟩ := bind_eq_ok.mp h
      cases h
      exact List.mem_cons_self
  refine ⟨Operator.operand_eq h operand, ?_⟩
  rintro rfl
  exact hmentions

/-- The filter of an expression uses this expression alone, inverted or not. -/
theorem Filter.uses_of_narrow {types : ColumnTypes} {sql used : String} {arguments : Arguments}
    {owner : Table} {result : Scope}
    (h : (Filter.own types (.expression sql)).narrow arguments (Scope.all owner) = .ok result) :
    result.Uses used ↔ used = sql := by
  have hplain : ∀ {operator : Operator} {param : Json} {matched : Scope},
      (Filter.own types (.expression sql)).narrow ⟨operator, param, false⟩ (Scope.all owner) =
        .ok matched → (matched.Uses used ↔ used = sql) := by
    intro operator param matched hmatched
    have hinner := inner_narrow_plain hmatched
    obtain ⟨conditions, hconditions, hmatched⟩ := bind_eq_ok.mp hmatched
    cases hmatched
    obtain ⟨type, htype, hconditions⟩ := bind_eq_ok.mp hconditions
    cases htype
    have hmentions : .expression used ∈ operandsOf conditions ↔
        Operand.expression used = .expression sql := Operator.mem_operandsOf_untyped hconditions
    rw [Scope.Uses, hinner]
    simpa [Scope.narrow, Scope.all] using hmentions
  obtain ⟨operator, param, invert⟩ := arguments
  cases invert with
  | false => exact hplain h
  | true =>
    -- the expression is in the scope that is excluded, and nowhere else
    rw [narrow_inverted, map_eq_ok] at h
    obtain ⟨matched, hmatched, rfl⟩ := h
    have hall : ¬(Scope.all owner).Uses used := by
      simp [Scope.Uses, Scope.inner_eq, Scope.all, innerOf, operandsOf]
    rw [Scope.uses_excluding, or_iff_right hall]
    exact hplain hmatched

/-! ## The meaning of a name -/

/-- What is reported for a name is what its filter uses on all rows, whatever it is called with. -/
def Surface.HasOneMeaning (surface : Surface) (name : String) : Prop :=
  ∀ arguments result, surface.narrowBy (filterName name) arguments surface.all = .ok result →
    ∀ sql, result.Uses sql ↔ surface.expressionOf? name = some sql

namespace Declaration

variable {declaration : Declaration} {lookUp : String → Option Surface} {defaults : Limits}
  {linked : List (Association × Surface)} {surface : Surface} {name : String}

section

variable (hlinked : declaration.associations.mapM (declaration.link lookUp) = .ok linked)
  (hown : ∀ association ∈ declaration.associations, name ∉ association.givenNames lookUp)
  {last : String} (hlast : declaration.virtualColumns.reverse.lookup name = some last)

include hlinked hown hlast

/-- The filter of a virtual column is about the expression that was declared last. -/
theorem filter?_virtualColumn (defaults : Limits) :
    (declaration.surface defaults linked).filter? (filterName name) =
      some (.own declaration.columnTypes (.expression last)) := by
  have hbehind : (linked.flatMap fun link =>
      link.1.filters declaration.table link.2).reverse.lookup name = none := by
    refine List.lookup_eq_none_iff.mpr fun entry hentry => bne_iff_ne.mpr ?_
    rintro rfl
    have hmem := List.mem_map_of_mem (f := Prod.fst) (List.mem_reverse.mp hentry)
    rw [← flatMap_givenNames hlinked] at hmem
    obtain ⟨association, hassociation, hname⟩ := List.mem_flatMap.mp hmem
    exact hown association hassociation hname
  rw [Surface.filter?_filterName, surface, Keyed.lookup_ofList, List.reverse_append,
    List.lookup_append, hbehind, Option.none_or, ownFilters, List.reverse_append,
    List.lookup_append, ← List.map_reverse,
    Keyed.lookup_map fun sql => Filter.own declaration.columnTypes (.expression sql), hlast]
  rfl

theorem uses_of_narrowBy {arguments : Arguments} {result : Scope} {sql : String}
    (h : (declaration.surface defaults linked).narrowBy (filterName name) arguments
      (declaration.surface defaults linked).all = .ok result) :
    result.Uses sql ↔ sql = last := by
  rw [Surface.narrowBy, filter?_virtualColumn hlinked hown hlast] at h
  exact Filter.uses_of_narrow h

/-- The name has one meaning if the expression that its filter uses is the one that is reported. -/
theorem hasOneMeaning_of_last (hreported : declaration.virtualColumns.lookup name = some last) :
    (declaration.surface defaults linked).HasOneMeaning name := by
  intro arguments result h sql
  have hexpression : (declaration.surface defaults linked).expressionOf? name = some last :=
    hreported
  rw [uses_of_narrowBy hlinked hown hlast h, hexpression, Option.some_inj, eq_comm]

theorem last_of_hasOneMeaning (h : (declaration.surface defaults linked).HasOneMeaning name) :
    declaration.virtualColumns.lookup name = some last := by
  -- a search for null always succeeds
  obtain ⟨result, hresult⟩ : ∃ result,
      (declaration.surface defaults linked).narrowBy (filterName name)
        ⟨.equals, .null, false⟩ (declaration.surface defaults linked).all = .ok result := by
    rw [Surface.narrowBy, filter?_virtualColumn hlinked hown hlast]
    exact ⟨_, rfl⟩
  exact (h _ _ hresult last).mp ((uses_of_narrowBy hlinked hown hlast hresult).mpr rfl)

end

/-- The filter of a virtual column uses the expression that was declared last. The name has one
meaning exactly if that is the one that was declared first; it is where no name is declared twice.
-/
theorem hasOneMeaning_iff (hcompile : declaration.compile lookUp defaults = .ok surface)
    (hdeclared : name ∈ declaration.virtualColumns.map Prod.fst)
    (hown : ∀ association ∈ declaration.associations, name ∉ association.givenNames lookUp) :
    (∀ arguments result, surface.narrowBy (filterName name) arguments surface.all = .ok result →
      ∀ sql, result.Uses sql ↔ declaration.virtualColumns.reverse.lookup name = some sql) ∧
    (surface.HasOneMeaning name ↔
      declaration.virtualColumns.reverse.lookup name = declaration.virtualColumns.lookup name) ∧
    ((declaration.virtualColumns.map Prod.fst).Nodup → surface.HasOneMeaning name) := by
  obtain ⟨-, -, -, -, -, linked, hlinked, rfl⟩ := compile_eq_ok.mp hcompile
  obtain ⟨last, hlast⟩ := Keyed.exists_lookup_reverse hdeclared
  refine ⟨fun arguments result h sql => ?_, ⟨fun h => ?_, fun hsame => ?_⟩, fun hnodup => ?_⟩
  · rw [uses_of_narrowBy hlinked hown hlast h, hlast, Option.some_inj, eq_comm]
  · rw [hlast, last_of_hasOneMeaning hlinked hown hlast h]
  · exact hasOneMeaning_of_last hlinked hown hlast (hsame ▸ hlast)
  · have hsame := Keyed.lookup_reverse_of_nodup hnodup hdeclared
    exact hasOneMeaning_of_last hlinked hown hlast (hsame ▸ hlast)

end Declaration

/-! ## A label that is declared again -/

/-- Songs with a label in a column, and with virtual columns in place of it. -/
def labelledSongs (expressions : List String) : Declaration :=
  { songDeclaration "label" with
    virtualColumns := expressions.map fun sql => ("label", sql) }

/-- The surface of songs with virtual labels. -/
def labelled (expressions : List String) : Surface :=
  (labelledSongs expressions).surface Limits.default
    [(⟨.belongsTo, "singer", "singer_id", singers.table⟩, singers)]

/-- The label of the songs is not given by their singer. -/
theorem label_not_given : ∀ association ∈ (labelledSongs []).associations,
    "label" ∉ association.givenNames singersAlone := by
  decide

/-- A label that is declared as before has one meaning, whatever was declared between. -/
theorem Declaration.hasOneMeaning_iff_label :
    (labelledSongs ["title || code", "title", "title || code"]).compile singersAlone
      Limits.default = .ok (labelled ["title || code", "title", "title || code"]) ∧
    (labelledSongs ["title || code", "title", "title || code"]).attributes = ["label"] ∧
    (labelled ["title || code", "title", "title || code"]).HasOneMeaning "label" ∧
    (labelled ["title"]).HasOneMeaning "label" := by
  have hthrice : (labelledSongs ["title || code", "title", "title || code"]).compile singersAlone
      Limits.default = .ok (labelled ["title || code", "title", "title || code"]) := rfl
  have honce : (labelledSongs ["title"]).compile singersAlone Limits.default =
      .ok (labelled ["title"]) := rfl
  obtain ⟨-, hmeaning, -⟩ := hasOneMeaning_iff hthrice (by decide) label_not_given
  obtain ⟨-, -, hnodup⟩ := hasOneMeaning_iff honce (by decide) label_not_given
  exact ⟨hthrice, rfl, hmeaning.mpr (by decide), hnodup (List.nodup_singleton _)⟩

/-- A label that is declared again is filtered by the new expression and reported with the old
one. -/
theorem Declaration.reports_first_label :
    (labelledSongs ["title || code", "title"]).compile singersAlone Limits.default =
      .ok (labelled ["title || code", "title"]) ∧
    (∀ association ∈ (labelledSongs ["title || code", "title"]).associations,
      "label" ∉ association.givenNames singersAlone) ∧
    (∃ result, (labelled ["title || code", "title"]).narrowBy "by_label"
        ⟨.equals, .string "x", false⟩ (labelled ["title || code", "title"]).all = .ok result ∧
      ∀ sql, result.Uses sql ↔ sql = "title") ∧
    (labelled ["title || code", "title"]).expressionOf? "label" = some "title || code" ∧
    ¬(labelled ["title || code", "title"]).HasOneMeaning "label" := by
  obtain ⟨result, hnarrow⟩ : ∃ result,
      (Filter.own (labelledSongs []).columnTypes (.expression "title")).narrow
        ⟨.equals, .string "x", false⟩ (Scope.all (labelledSongs []).table) = .ok result := ⟨_, rfl⟩
  have hcalled : (labelled ["title || code", "title"]).narrowBy "by_label"
      ⟨.equals, .string "x", false⟩ (labelled ["title || code", "title"]).all = .ok result :=
    hnarrow
  have huses : ∀ sql, result.Uses sql ↔ sql = "title" := fun sql => Filter.uses_of_narrow hnarrow
  refine ⟨rfl, label_not_given, ⟨result, hcalled, huses⟩, rfl, fun h => ?_⟩
  have hreported := (h _ result hcalled "title").mp ((huses "title").mpr rfl)
  revert hreported
  decide

end Sift
