import Mathlib.Logic.Relation
import Sift.Proofs.WellScopedResults

/-!
# Names in the results of filtering

Tables, qualifiers and columns are written into statements as they are, and so are the expressions
of virtual columns. Rules choose among them and supply none: whatever texts are in the rules, each
name in the result comes from the surface or from one that it reaches along associations, at any
depth, and so does each expression. A registration checks all names that it brings in, and an
underscore between two identifiers makes an identifier, so every name in the result is one.
-/

namespace Sift

/-! ## Names along associations -/

/-- A surface was compiled from a declaration with an association to a model, which another surface
stood for at that time. -/
def Catalog.Relates (limits : Limits) (declarations : List Declaration)
    (owner related : Surface) : Prop :=
  ∃ before declaration, Registers limits declarations before declaration owner ∧
    ∃ association ∈ declaration.associations,
      ((empty limits).registerAll before).get? association.model = some related

/-- The columns that the declaration of a surface names: the primary key, the attributes and the
foreign keys of associations. -/
def Surface.columnNames (surface : Surface) : List String :=
  surface.table.primaryKey ::
    (surface.attributes ++ surface.associations.map Association.foreignKey)

/-- The names that a surface has for tables that it reaches: the name of an association alone, or
behind it a name that the related surface has. -/
inductive Surface.Spells (relates : Surface → Surface → Prop) : Surface → String → Prop
  | name {owner : Surface} {association : Association} (hmem : association ∈ owner.associations) :
    Spells relates owner association.name
  | nested {owner related : Surface} {association : Association} {name : String}
      (hmem : association ∈ owner.associations) (hrelates : relates owner related)
      (hname : Spells relates related name) :
    Spells relates owner (association.nestedName name)

/-- The columns in a scope: those that its joins compare and those in its conditions. -/
inductive Scope.Mentions (scope : Scope) : Column → Prop
  | left {join : Join} (hmem : join ∈ scope.joins) : Mentions scope join.left
  | right {join : Join} (hmem : join ∈ scope.joins) : Mentions scope join.right
  | operand {source : Column} (hmem : .column source ∈ operandsOf scope.conditions) :
    Mentions scope source

/-- Everything in a scope that is written into statements as it is comes from a surface or from
those that it reaches. -/
structure Scope.DrawnFrom (relates : Surface → Surface → Prop) (owner : Surface) (scope : Scope) :
    Prop where
  scopedOver : scope.ScopedOver owner.table
  tables : ∀ join ∈ scope.joins,
    ∃ related, Relation.ReflTransGen relates owner related ∧ join.table = related.table.name
  qualifiers : ∀ join ∈ scope.joins, owner.Spells relates join.qualifier
  columns : ∀ column, scope.Mentions column →
    ∃ related, Relation.ReflTransGen relates owner related ∧ column.name ∈ related.columnNames
  expressions : ∀ sql, .expression sql ∈ operandsOf scope.conditions →
    ∃ related, Relation.ReflTransGen relates owner related ∧
      ∃ name, (name, sql) ∈ related.virtualColumns

/-- A filter that follows associations from a surface to one that it reaches, and there is about a
column or a virtual column that is declared. -/
inductive Filter.LeadsFrom (relates : Surface → Surface → Prop) : Surface → Filter → Prop
  | column {owner : Surface} {name : String} (types : ColumnTypes)
      (hname : name ∈ owner.columnNames) : LeadsFrom relates owner (.own types (.column name))
  | virtualColumn {owner : Surface} {name sql : String} (types : ColumnTypes)
      (hmem : (name, sql) ∈ owner.virtualColumns) :
    LeadsFrom relates owner (.own types (.expression sql))
  | through {owner related : Surface} {association : Association} {next : Filter}
      (hmem : association ∈ owner.associations) (hrelates : relates owner related)
      (hrelated : association.related = related.table) (hnext : LeadsFrom relates related next) :
    LeadsFrom relates owner (.through (association.join owner.table) association.related next)

/-- All filters of a surface lead from it. -/
def Surface.FiltersLead (relates : Surface → Surface → Prop) (surface : Surface) : Prop :=
  ∀ entry ∈ surface.filters, entry.2.LeadsFrom relates surface

theorem Surface.primaryKey_mem_columnNames (surface : Surface) :
    surface.table.primaryKey ∈ surface.columnNames := List.mem_cons_self ..

theorem Surface.attribute_mem_columnNames {surface : Surface} {attr : String}
    (h : attr ∈ surface.attributes) : attr ∈ surface.columnNames :=
  List.mem_cons_of_mem _ (List.mem_append_left _ h)

theorem Surface.foreignKey_mem_columnNames {surface : Surface} {association : Association}
    (h : association ∈ surface.associations) : association.foreignKey ∈ surface.columnNames :=
  List.mem_cons_of_mem _ (List.mem_append_right _ (List.mem_map_of_mem h))

/-! ## What filters select -/

section

variable {relates : Surface → Surface → Prop} {owner related : Surface} {association : Association}

/-- The column of the owner that an association compares with is a registered one. -/
theorem Association.ownerKey_mem_columnNames (h : association ∈ owner.associations) :
    association.ownerKey owner.table ∈ owner.columnNames := by
  unfold Association.ownerKey
  cases association.kind with
  | belongsTo => exact Surface.foreignKey_mem_columnNames h
  | hasMany => exact owner.primaryKey_mem_columnNames

/-- So is the column of the related table, on a surface that the owner relates to. -/
theorem Association.exists_relatedKey_mem (h : association ∈ owner.associations)
    (hrelates : relates owner related) (hrelated : association.related = related.table) :
    ∃ reached, Relation.ReflTransGen relates owner reached ∧
      association.relatedKey ∈ reached.columnNames := by
  unfold Association.relatedKey
  cases association.kind with
  | belongsTo =>
    refine ⟨related, Relation.ReflTransGen.single hrelates, ?_⟩
    rw [hrelated]
    exact related.primaryKey_mem_columnNames
  | hasMany => exact ⟨owner, Relation.ReflTransGen.refl, Surface.foreignKey_mem_columnNames h⟩

/-- Behind an association every qualifier is spelled with one name more. -/
theorem Scope.DrawnFrom.spells_renamed {scope : Scope} (h : scope.DrawnFrom relates related)
    (hmem : association ∈ owner.associations) (hrelates : relates owner related)
    {qualifier : String} (hqualifier : qualifier ∈ scope.names) :
    owner.Spells relates
      ((renamesBehind (association.join owner.table) scope).apply qualifier) := by
  -- the related table is called as the association, and what it joins has this name in front
  by_cases htable : qualifier = scope.table
  · rw [htable, apply_renamesBehind_table]
    exact .name hmem
  · have hjoined := (List.mem_cons.mp hqualifier).resolve_left htable
    rw [apply_renamesBehind_nested _ hjoined htable]
    obtain ⟨join, hjoin, rfl⟩ := List.mem_map.mp hjoined
    exact .nested hmem hrelates (h.qualifiers join hjoin)

theorem Scope.not_mentions_all (table : Table) (column : Column) :
    ¬(Scope.all table).Mentions column := by
  intro h
  cases h with
  | left hmem => exact List.not_mem_nil hmem
  | right hmem => exact List.not_mem_nil hmem
  | operand hmem => exact List.not_mem_nil hmem

/-- Pages mention no column. -/
theorem Scope.Mentions.of_withoutPage {scope : Scope} {column : Column}
    (h : scope.withoutPage.Mentions column) : scope.Mentions column := by
  cases h with
  | left hmem => exact .left hmem
  | right hmem => exact .right hmem
  | operand hmem => exact .operand hmem

/-- A column is mentioned by the scope or by a condition that was added. -/
theorem Scope.Mentions.of_narrow {scope : Scope} {conditions : List Condition} {column : Column}
    (h : (scope.narrow conditions).Mentions column) :
    scope.Mentions column ∨ .column column ∈ operandsOf conditions := by
  cases h with
  | left hmem => exact Or.inl (.left hmem)
  | right hmem => exact Or.inl (.right hmem)
  | operand hmem =>
    rw [conditions_narrow, operandsOf_append] at hmem
    exact (List.mem_append.mp hmem).imp_left .operand

/-- A conjunction mentions what its two scopes mention. -/
theorem Scope.Mentions.of_conjoin {scope other : Scope} {column : Column}
    (h : (scope.conjoin other).Mentions column) :
    scope.Mentions column ∨ other.Mentions column := by
  cases h with
  | left hmem => exact (mem_addJoins.mp hmem).imp .left .left
  | right hmem => exact (mem_addJoins.mp hmem).imp .right .right
  | operand hmem =>
    rw [conditions_conjoin, operandsOf_append] at hmem
    exact (List.mem_append.mp hmem).imp .operand .operand

/-- What comes through a join mentions the columns of the join, and renamed ones, whose own names
stay. -/
theorem Scope.Mentions.of_conjoinVia {table : Table} {join : Join} {scope : Scope} {column : Column}
    (h : ((Scope.all table).conjoinVia join scope).Mentions column) :
    column = join.left ∨ column = join.right ∨
      ∃ old, scope.Mentions old ∧ column.name = old.name := by
  cases h with
  | left hmem =>
    rcases mem_joins_conjoinVia.mp hmem with rfl | ⟨nested, hnested, rfl⟩
    · exact Or.inl rfl
    · exact Or.inr (Or.inr ⟨_, .left hnested, rfl⟩)
  | right hmem =>
    rcases mem_joins_conjoinVia.mp hmem with rfl | ⟨nested, hnested, rfl⟩
    · exact Or.inr (Or.inl rfl)
    · exact Or.inr (Or.inr ⟨_, .right hnested, rfl⟩)
  | operand hmem =>
    obtain ⟨old, hold, hrenamed⟩ := mem_operandsOf_conjoinVia.mp hmem
    cases old with
    | expression sql => cases hrenamed
    | column source =>
      cases hrenamed
      exact Or.inr (Or.inr ⟨source, .operand hold, rfl⟩)

/-- All rows of a table mention nothing. -/
theorem Scope.DrawnFrom.of_all (owner : Surface) : owner.all.DrawnFrom relates owner where
  scopedOver := scopedOver_all owner.table
  tables _ hjoin := absurd hjoin List.not_mem_nil
  qualifiers _ hjoin := absurd hjoin List.not_mem_nil
  columns column h := absurd h (not_mentions_all owner.table column)
  expressions _ h := absurd h List.not_mem_nil

/-- Conditions about columns and expressions of the owner's own keep a scope drawn from it. -/
theorem Scope.DrawnFrom.narrow {scope : Scope} (h : scope.DrawnFrom relates owner)
    {conditions : List Condition}
    (hcolumns : ∀ source, .column source ∈ operandsOf conditions →
      source.qualifier = scope.table ∧ source.name ∈ owner.columnNames)
    (hexpressions : ∀ sql, .expression sql ∈ operandsOf conditions →
      ∃ name, (name, sql) ∈ owner.virtualColumns) :
    (scope.narrow conditions).DrawnFrom relates owner where
  scopedOver := by
    refine h.scopedOver.narrow fun operand hoperand => ?_
    cases operand with
    | column source =>
      show source.qualifier ∈ scope.names
      rw [(hcolumns source hoperand).1]
      exact List.mem_cons_self ..
    | expression sql => trivial
  tables := h.tables
  qualifiers := h.qualifiers
  columns column hcolumn := by
    rcases hcolumn.of_narrow with hcolumn | hmem
    · exact h.columns column hcolumn
    · exact ⟨owner, Relation.ReflTransGen.refl, (hcolumns column hmem).2⟩
  expressions sql hsql := by
    rw [conditions_narrow, operandsOf_append] at hsql
    rcases List.mem_append.mp hsql with hsql | hsql
    · exact h.expressions sql hsql
    · exact ⟨owner, Relation.ReflTransGen.refl, hexpressions sql hsql⟩

theorem Scope.DrawnFrom.withoutPage {scope : Scope} (h : scope.DrawnFrom relates owner) :
    scope.withoutPage.DrawnFrom relates owner where
  scopedOver := h.scopedOver.withoutPage
  tables := h.tables
  qualifiers := h.qualifiers
  columns column hcolumn := h.columns column hcolumn.of_withoutPage
  expressions := h.expressions

/-- A conjunction is drawn from what its two scopes are drawn from. -/
theorem Scope.DrawnFrom.conjoin {scope other : Scope} (h : scope.DrawnFrom relates owner)
    (hother : other.DrawnFrom relates owner) : (scope.conjoin other).DrawnFrom relates owner where
  scopedOver := h.scopedOver.conjoin hother.scopedOver
  tables join hjoin := (mem_addJoins.mp hjoin).elim (h.tables join) (hother.tables join)
  qualifiers join hjoin := (mem_addJoins.mp hjoin).elim (h.qualifiers join) (hother.qualifiers join)
  columns column hcolumn :=
    hcolumn.of_conjoin.elim (h.columns column) (hother.columns column)
  expressions sql hsql := by
    rw [conditions_conjoin, operandsOf_append] at hsql
    exact (List.mem_append.mp hsql).elim (h.expressions sql) (hother.expressions sql)

/-- A scope drawn from a related surface is drawn from the owner behind an association. -/
theorem Scope.DrawnFrom.conjoinVia {scope : Scope} (h : scope.DrawnFrom relates related)
    (hmem : association ∈ owner.associations) (hrelates : relates owner related)
    (hrelated : association.related = related.table) :
    (owner.all.conjoinVia (association.join owner.table) scope).DrawnFrom relates owner where
  scopedOver := by
    refine scopedOver_conjoinVia ?_
    rw [hrelated]
    exact h.scopedOver
  tables join hjoin := by
    -- the related table itself, or one that the related scope joins
    rcases mem_joins_conjoinVia.mp hjoin with rfl | ⟨nested, hnested, rfl⟩
    · exact ⟨related, .single hrelates, congrArg Table.name hrelated⟩
    · obtain ⟨reached, hreached, htable⟩ := h.tables nested hnested
      exact ⟨reached, .head hrelates hreached, htable⟩
  qualifiers join hjoin := by
    rcases mem_joins_conjoinVia.mp hjoin with rfl | ⟨nested, hnested, rfl⟩
    · exact .name hmem
    · exact h.spells_renamed hmem hrelates
        (List.mem_cons_of_mem _ (List.mem_map_of_mem hnested))
  columns column hcolumn := by
    -- the columns that the association compares, or one of the related scope under a new qualifier
    rcases hcolumn.of_conjoinVia with rfl | rfl | ⟨old, hold, hname⟩
    · exact association.exists_relatedKey_mem hmem hrelates hrelated
    · exact ⟨owner, .refl, association.ownerKey_mem_columnNames hmem⟩
    · obtain ⟨reached, hreached, hcolumn⟩ := h.columns old hold
      rw [hname]
      exact ⟨reached, .head hrelates hreached, hcolumn⟩
  expressions sql hsql := by
    obtain ⟨old, hold, hrenamed⟩ := mem_operandsOf_conjoinVia.mp hsql
    cases old with
    | column source => cases hrenamed
    | expression sql =>
      cases hrenamed
      obtain ⟨reached, hreached, hdeclared⟩ := h.expressions sql hold
      exact ⟨reached, .head hrelates hreached, hdeclared⟩

/-- What a filter selects without inversion is drawn from the surface that the filter leads from. -/
theorem Filter.LeadsFrom.drawnFrom {filter : Filter} (h : filter.LeadsFrom relates owner)
    {operator : Operator} {param : Json} {result : Scope}
    (hnarrow : filter.narrow ⟨operator, param, false⟩ owner.all = .ok result) :
    result.DrawnFrom relates owner := by
  induction h generalizing result with
  | @column owner name types hname =>
    obtain ⟨conditions, hconditions, hnarrow⟩ := bind_eq_ok.mp hnarrow
    cases hnarrow
    -- an operator puts conditions on the operand of its target and on nothing else
    refine (Scope.DrawnFrom.of_all owner).narrow (fun source hsource => ?_) fun sql hsql => ?_
    · cases Target.operand_eq hconditions _ hsource
      exact ⟨rfl, hname⟩
    · cases Target.operand_eq hconditions _ hsql
  | @virtualColumn owner name sql types hmem =>
    obtain ⟨conditions, hconditions, hnarrow⟩ := bind_eq_ok.mp hnarrow
    cases hnarrow
    refine (Scope.DrawnFrom.of_all owner).narrow (fun source hsource => ?_) fun sql hsql => ?_
    · cases Target.operand_eq hconditions _ hsource
    · cases Target.operand_eq hconditions _ hsql
      exact ⟨name, hmem⟩
  | through hmem hrelates hrelated _ ih =>
    obtain ⟨matched, hmatched, hnarrow⟩ := bind_eq_ok.mp hnarrow
    cases hnarrow
    rw [hrelated] at hmatched
    exact (ih hmatched).conjoinVia hmem hrelates hrelated

/-- Being drawn from a surface is kept by rules, if all filters of the surface lead from it. -/
theorem Surface.FiltersLead.keeps_drawnFrom (hfilters : owner.FiltersLead relates) :
    owner.Keeps fun scope => scope.DrawnFrom relates owner where
  overTable _ h := h.scopedOver.overTable
  all := Scope.DrawnFrom.of_all owner
  withoutPage _ h := h.withoutPage
  conjoin _ _ h hother := h.conjoin hother
  narrow scope conditions h hkey := by
    refine h.narrow (fun source hsource => ?_) fun sql hsql => ?_
    · cases hkey _ hsource
      refine ⟨rfl, ?_⟩
      show scope.primaryKey ∈ owner.columnNames
      rw [h.scopedOver.overTable.primaryKey_eq]
      exact owner.primaryKey_mem_columnNames
    · cases hkey _ hsql
  selected entry hentry _ _ _ hmatched := (hfilters entry hentry).drawnFrom hmatched

end

/-! ## Registered surfaces -/

variable {limits : Limits} {declarations : List Declaration} {model : String} {surface : Surface}

/-- A filter of a registered surface is about an attribute or a virtual column of its declaration,
or an association leads it to a surface that was there before, to the key or to a filter of that
one. -/
theorem Catalog.Registers.mem_filters {before : List Declaration} {declaration : Declaration}
    (h : Registers limits declarations before declaration surface) {entry : String × Filter}
    (hentry : entry ∈ surface.filters) :
    (∃ attr ∈ declaration.attributes, entry.2 = .own declaration.columnTypes (.column attr)) ∨
    (∃ column ∈ declaration.virtualColumns,
      entry.2 = .own declaration.columnTypes (.expression column.2)) ∨
    ∃ association ∈ surface.associations, ∃ related next,
      Relates limits declarations surface related ∧ association.related = related.table ∧
      (∃ model, ((empty limits).registerAll before).get? model = some related) ∧
      entry.2 = .through (association.join surface.table) association.related next ∧
      (next = .own related.types (.column related.table.primaryKey) ∨
        ∃ name, (name, next) ∈ related.filters) := by
  obtain ⟨-, -, -, -, -, linked, hlinked, hsurface⟩ := Declaration.compile_eq_ok.mp h.compiled
  rw [hsurface] at hentry
  refine (Declaration.mem_filters_surface hentry).imp_right (Or.imp_right ?_)
  rintro ⟨link, hlink, hentry⟩
  obtain ⟨association, hassociation, hlinks⟩ := exists_input_of_mapM hlinked hlink
  obtain ⟨hget, hkeep⟩ := Declaration.link_eq_ok hlinks
  have hmem : link.1 ∈ surface.associations := by
    rw [hsurface]
    exact List.mem_map_of_mem hlink
  have hrelated : link.1.related = link.2.table := by rw [hkeep]
  have htable : declaration.table = surface.table := by rw [hsurface]; rfl
  obtain ⟨next, hthrough, hnext⟩ := Association.mem_filters hentry
  rw [htable, ← hrelated] at hthrough
  exact ⟨link.1, hmem, link.2, next, ⟨before, declaration, h, association, hassociation, hget⟩,
    hrelated, ⟨association.model, hget⟩, hthrough, hnext⟩

/-- Every filter of a registered surface leads from the surface along what was registered. -/
theorem filtersLead_of_registerAll
    (h : ((Catalog.empty limits).registerAll declarations).get? model = some surface) :
    surface.FiltersLead (Catalog.Relates limits declarations) := by
  refine Catalog.of_registers (fun before declaration surface hregisters hbefore => ?_) h
  obtain ⟨-, -, -, -, -, linked, -, hsurface⟩ := Declaration.compile_eq_ok.mp hregisters.compiled
  intro entry hentry
  rcases hregisters.mem_filters hentry with ⟨attr, hattr, hown⟩ | ⟨column, hcolumn, hown⟩ |
    ⟨association, hmem, related, next, hrelates, hrelated, ⟨model, hget⟩, hthrough, hnext⟩
  · -- an attribute
    rw [hown]
    refine .column _ (Surface.attribute_mem_columnNames ?_)
    rw [hsurface]
    exact List.mem_eraseDups.mpr (List.mem_append_left _ hattr)
  · -- a virtual column
    rw [hown]
    have hdeclared : (column.1, column.2) ∈ surface.virtualColumns := by
      rw [hsurface]
      exact hcolumn
    exact .virtualColumn _ hdeclared
  · -- an association; what comes behind it leads on by induction on the registrations
    rw [hthrough]
    refine .through hmem hrelates hrelated ?_
    rcases hnext with rfl | ⟨name, hnext⟩
    · exact .column _ related.primaryKey_mem_columnNames
    · exact hbefore _ _ hget _ hnext

/-- All names that a surface has are identifiers. -/
structure Surface.NamesProper (surface : Surface) : Prop where
  table : Text.isIdentifier surface.table.name
  columns : ∀ name ∈ surface.columnNames, Text.isIdentifier name
  associations : ∀ association ∈ surface.associations, Text.isIdentifier association.name

/-- A required name is an identifier. -/
theorem requireName_eq_ok {kind : NameKind} {name : String} :
    requireName kind name = .ok () ↔ Text.isIdentifier name := by
  unfold requireName
  by_cases h : Text.isIdentifier name
  · rw [if_pos h]
    exact iff_of_true rfl h
  · rw [if_neg h]
    exact iff_of_false (fun hok => nomatch hok) h

theorem Declaration.names_of_link {declaration : Declaration} {lookUp : String → Option Surface}
    {association : AssociationDeclaration} {link : Association × Surface}
    (h : declaration.link lookUp association = .ok link) :
    Text.isIdentifier link.1.name ∧ Text.isIdentifier link.1.foreignKey := by
  obtain ⟨-, hkeep⟩ := link_eq_ok h
  rw [hkeep]
  obtain ⟨_, hname, h⟩ := bind_eq_ok.mp h
  obtain ⟨_, hforeignKey, -⟩ := bind_eq_ok.mp h
  exact ⟨requireName_eq_ok.mp hname, requireName_eq_ok.mp hforeignKey⟩

/-- Compiling a declaration checks all names that its surface has. -/
theorem Declaration.namesProper_of_compile {declaration : Declaration}
    {lookUp : String → Option Surface} {defaults : Limits} {surface : Surface}
    (h : declaration.compile lookUp defaults = .ok surface) : surface.NamesProper := by
  obtain ⟨hnames, hattributes, hcolumns, -, -, linked, hlinked, rfl⟩ := compile_eq_ok.mp h
  obtain ⟨_, htable, hnames⟩ := bind_eq_ok.mp hnames
  obtain ⟨_, hprimaryKey, -⟩ := bind_eq_ok.mp hnames
  have hassociations : ∀ association ∈ (declaration.surface defaults linked).associations,
      Text.isIdentifier association.name ∧ Text.isIdentifier association.foreignKey := by
    intro association hassociation
    obtain ⟨link, hlink, rfl⟩ := List.mem_map.mp hassociation
    obtain ⟨_, -, hlink⟩ := exists_input_of_mapM hlinked hlink
    exact names_of_link hlink
  refine ⟨requireName_eq_ok.mp htable, ?_, fun association h => (hassociations association h).1⟩
  intro name hname
  rcases List.mem_cons.mp hname with rfl | hname
  · exact requireName_eq_ok.mp hprimaryKey
  -- attributes, virtual columns and foreign keys are each checked in a step of their own
  rcases List.mem_append.mp hname with hname | hname
  · rcases List.mem_append.mp (List.mem_eraseDups.mp hname) with hattr | hcolumn
    · obtain ⟨_, hcheck, -⟩ := bind_eq_ok.mp (forM_eq_ok.mp hattributes name hattr)
      exact requireName_eq_ok.mp hcheck
    · obtain ⟨column, hmem, rfl⟩ := List.mem_map.mp hcolumn
      obtain ⟨_, hcheck, -⟩ := bind_eq_ok.mp (forM_eq_ok.mp hcolumns column hmem)
      exact requireName_eq_ok.mp hcheck
  · obtain ⟨association, hassociation, rfl⟩ := List.mem_map.mp hname
    exact (hassociations association hassociation).2

/-- All names of a registered surface are identifiers. -/
theorem namesProper_of_registerAll
    (h : ((Catalog.empty limits).registerAll declarations).get? model = some surface) :
    surface.NamesProper :=
  Catalog.of_get?_registerAll
    (fun _ _ _ _ _ _ hcompile => Declaration.namesProper_of_compile hcompile) h

/-- So are those of the surfaces that it reaches. -/
theorem Surface.NamesProper.of_reaches {related : Surface} (h : surface.NamesProper)
    (hreaches : Relation.ReflTransGen (Catalog.Relates limits declarations) surface related) :
    related.NamesProper := by
  induction hreaches with
  | refl => exact h
  | tail _ hrelates _ =>
    obtain ⟨before, declaration, -, association, -, hget⟩ := hrelates
    exact namesProper_of_registerAll hget

/-- What is spelled from identifiers with underscores between is an identifier. -/
theorem Surface.NamesProper.of_spells {name : String} (h : surface.NamesProper)
    (hspells : surface.Spells (Catalog.Relates limits declarations) name) :
    Text.isIdentifier name := by
  induction hspells with
  | name hmem => exact h.associations _ hmem
  | nested hmem hrelates _ ih =>
    have hrelated := h.of_reaches (Relation.ReflTransGen.single hrelates)
    exact Text.isIdentifier_underscore (h.associations _ hmem) (ih hrelated)

/-! ## Results -/

/-- All names in a scope are identifiers. -/
structure Scope.NamesProper (scope : Scope) : Prop where
  table : Text.isIdentifier scope.table
  primaryKey : Text.isIdentifier scope.primaryKey
  joins : ∀ join ∈ scope.joins, Text.isIdentifier join.table ∧ Text.isIdentifier join.qualifier
  columns : ∀ column, scope.Mentions column →
    Text.isIdentifier column.qualifier ∧ Text.isIdentifier column.name

/-- A well scoped scope mentions columns of its own tables only. -/
theorem Scope.ScopedOver.qualifier_mem {table : Table} {scope : Scope} (h : scope.ScopedOver table)
    {column : Column} (hcolumn : scope.Mentions column) : column.qualifier ∈ scope.names := by
  cases hcolumn with
  | left hmem =>
    rw [h.wellScoped.joins.left_eq hmem]
    exact List.mem_cons_of_mem _ (List.mem_map_of_mem hmem)
  | right hmem => exact h.wellScoped.joins.right_mem hmem
  | operand hmem => exact h.wellScoped.operands (.column column) hmem

/-- What is drawn from proper names has proper names. -/
theorem Scope.DrawnFrom.namesProper {scope : Scope} (hproper : surface.NamesProper)
    (h : scope.DrawnFrom (Catalog.Relates limits declarations) surface) : scope.NamesProper := by
  have htable : Text.isIdentifier scope.table := by
    rw [h.scopedOver.overTable.table_eq]
    exact hproper.table
  refine ⟨htable, ?_, fun join hjoin => ⟨?_, hproper.of_spells (h.qualifiers join hjoin)⟩, ?_⟩
  · rw [h.scopedOver.overTable.primaryKey_eq]
    exact hproper.columns _ surface.primaryKey_mem_columnNames
  · obtain ⟨reached, hreached, hjoined⟩ := h.tables join hjoin
    rw [hjoined]
    exact (hproper.of_reaches hreached).table
  · intro column hcolumn
    obtain ⟨reached, hreached, hname⟩ := h.columns column hcolumn
    refine ⟨?_, (hproper.of_reaches hreached).columns _ hname⟩
    rcases List.mem_cons.mp (h.scopedOver.qualifier_mem hcolumn) with hself | hjoined
    · rw [hself]
      exact htable
    · obtain ⟨join, hjoin, hqualifier⟩ := List.mem_map.mp hjoined
      rw [← hqualifier]
      exact hproper.of_spells (h.qualifiers join hjoin)

/-- Whatever untrusted rules say, in what they leave of all rows and in every scope inside it, the
table is the surface's own; joined tables, qualifiers, columns and expressions come from the surface
or from those that it reaches; and all names are identifiers. -/
theorem Surface.drawnFrom_of_gives
    (hnone : ∀ declaration ∈ declarations, declaration.namedScopes = [])
    (hsurface : ((Catalog.empty limits).registerAll declarations).get? model = some surface)
    {conjunction : Conjunction} {result : Scope}
    (h : surface.Gives surface.all conjunction result) :
    ∀ part ∈ result :: result.inner,
      part.DrawnFrom (Catalog.Relates limits declarations) surface ∧ part.NamesProper := by
  obtain ⟨rules, hrules⟩ := h.exists_rules
  have hkeeps := (filtersLead_of_registerAll hsurface).keeps_drawnFrom
  have hdrawn := hkeeps.throughout_narrowByRules (lacksScopes_of_registerAll hnone hsurface)
    hkeeps.throughout_all hrules
  have hproper := namesProper_of_registerAll hsurface
  exact fun part hpart => ⟨hdrawn part hpart, (hdrawn part hpart).namesProper hproper⟩

/-- Untrusted rules with texts that try to end the statement. -/
def hostileRules : Json :=
  .array [
    .object [("column", .string "shop_offers_total"), ("operator", .string "containing"),
      ("param", .string "1) OR (1=1")],
    .object [("column", .string "shop_city_size"), ("operator", .string "is"),
      ("param", .string "5; DROP TABLE visits"), ("invert", .string "yes")],
    .object [("conjunction", .string ":inclusive "), ("rules", .array [.null,
      .object [("column", .string "shop_city"), ("operator", .string "more_than"),
        ("param", .string "id -- ")]])]]

/-- The hostile texts leave the names and the expression alone. -/
theorem Surface.drawnFrom_of_gives_hostile : ∃ result,
    (∀ declaration ∈ visitDeclarations, declaration.namedScopes = []) ∧
    ((Catalog.empty Limits.default).registerAll visitDeclarations).get? "Visit" = some visits ∧
    visits.narrowByJson visits.all hostileRules .exclusive = .ok result ∧
    result.names = ["visits", "shop", "shop_offers"] ∧
    operandsOf result.conditions =
      [.expression "price * amount", .column ⟨"visits", "id"⟩, .column ⟨"visits", "id"⟩,
        .column ⟨"visits", "id"⟩] ∧
    result.inner.map Scope.names =
      [["visits", "shop", "shop_city"], ["visits"], ["visits", "shop", "shop_city"]] ∧
    ∀ part ∈ result :: result.inner,
      part.DrawnFrom (Catalog.Relates Limits.default visitDeclarations) visits ∧
        part.NamesProper := by
  have hvisits : ((Catalog.empty Limits.default).registerAll visitDeclarations).get? "Visit" =
      some visits := (Option.some_get _).symm
  have h : visits.narrowByJson visits.all hostileRules .exclusive = .ok _ := rfl
  have hgives : visits.Gives visits.all .exclusive _ := Or.inr (Or.inl ⟨hostileRules, h⟩)
  exact ⟨_, namedScopes_visitDeclarations, hvisits, h, rfl, rfl, rfl,
    drawnFrom_of_gives namedScopes_visitDeclarations hvisits hgives⟩

end Sift
