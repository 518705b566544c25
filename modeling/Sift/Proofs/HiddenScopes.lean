import Sift.Proofs.Registrations

/-!
# Hidden named scopes

A declaration gives named scopes and says which of them rules may call. The others are hidden: the
program that made the declaration calls them itself. Rules cannot tell what a hidden named scope
does, be it one of the model's own or one of a model that it reaches along associations. For what
rules can reach are the filters and the named scopes under allowed names, and an owner gets from a
related model those that this one allows.
-/

namespace Sift

/-! ## Declarations that differ in what is hidden -/

/-- Two named scopes under one name that do the same, unless the name is hidden. -/
def SameUnlessHidden (allowed : List String) (entry changed : String × ScopeFunction) : Prop :=
  entry.1 = changed.1 ∧ (entry.1 ∈ allowed → entry.2 = changed.2)

/-- Two declarations that differ in what their hidden named scopes do and in nothing else. -/
inductive Declaration.SameButHidden (declaration : Declaration) : Declaration → Prop
  | replaced {scopes : List (String × ScopeFunction)}
      (hscopes : List.Forall₂ (SameUnlessHidden declaration.allowedScopes)
        declaration.namedScopes scopes) :
    SameButHidden declaration { declaration with namedScopes := scopes }

/-- Two surfaces that were compiled from declarations, their own and those of all models that they
reach, which differ in what is hidden and in nothing else. -/
inductive Surface.Twins : Surface → Surface → Prop
  | compiled {declaration other : Declaration} {lookUp lookUpOther : String → Option Surface}
      {defaults : Limits} {surface twin : Surface} (hsame : declaration.SameButHidden other)
      (hnone : ∀ model, lookUp model = none ↔ lookUpOther model = none)
      (hsome : ∀ model related changed, lookUp model = some related →
        lookUpOther model = some changed → Twins related changed)
      (hcompile : declaration.compile lookUp defaults = .ok surface)
      (hother : other.compile lookUpOther defaults = .ok twin) : Twins surface twin

/-- Two surfaces agree on all that rules can reach. -/
structure Surface.Agree (surface twin : Surface) : Prop where
  table_eq : surface.table = twin.table
  types_eq : surface.types = twin.types
  limits_eq : surface.limits = twin.limits
  allowedScopes_eq : surface.allowedScopes = twin.allowedScopes
  filters_eq : surface.filters = twin.filters
  scopes_eq : ∀ name ∈ surface.allowedScopes,
    surface.scopes.lookup name = twin.scopes.lookup name

/-! ## Rules on surfaces that agree -/

namespace Surface.Agree

variable {surface twin : Surface}

/-- Surfaces that agree have the same rows. -/
theorem all_eq (h : surface.Agree twin) : surface.all = twin.all :=
  congrArg Scope.all h.table_eq

/-- Surfaces that agree unite branches alike. -/
theorem union_eq (h : surface.Agree twin) (branches : List Scope) :
    surface.union branches = twin.union branches := by
  rw [union, union, h.all_eq]

/-- Surfaces that agree have the same filters, whatever attribute is asked for. -/
theorem narrowByAttribute_eq (h : surface.Agree twin) (attr : String) (arguments : Arguments)
    (scope : Scope) :
    surface.narrowByAttribute attr arguments scope =
      twin.narrowByAttribute attr arguments scope := by
  rw [narrowByAttribute, narrowByAttribute, narrowBy, narrowBy, filter?_filterName,
    filter?_filterName, h.filters_eq]

/-- A name that is not allowed is rejected before the named scope is looked up. -/
theorem narrowByRule_scope_eq (h : surface.Agree twin) (name : String) (param : Json)
    (scope : Scope) :
    surface.narrowByRule (.scope name param) scope =
      twin.narrowByRule (.scope name param) scope := by
  rw [narrowByRule, narrowByRule, callable, callable, ← h.allowedScopes_eq]
  by_cases hallowed : name ∈ surface.allowedScopes
  · rw [if_pos hallowed]
    show surface.narrowByScope name _ scope = twin.narrowByScope name _ scope
    rw [narrowByScope, narrowByScope, h.scopes_eq name hallowed]
  · rw [if_neg hallowed]
    rfl

/-- Surfaces that agree combine rules alike if they narrow by them alike, in either way. -/
theorem combine_eq (h : surface.Agree twin) {rules : List Rule}
    (hall : surface.narrowByAll rules surface.all = twin.narrowByAll rules surface.all)
    (hany : surface.branches rules = twin.branches rules) (conjunction : Conjunction) :
    surface.combine rules conjunction = twin.combine rules conjunction := by
  cases conjunction with
  | exclusive => rw [combine, combine, ← h.all_eq, hall]
  | inclusive =>
    cases rules with
    | nil => rw [combine, combine, h.all_eq]
    | cons first rest =>
      rw [combine, combine, hany]
      exact congrArg _ (funext fun branches => congrArg Except.ok (h.union_eq branches))

end Surface.Agree

mutual

/-- A rule does the same on surfaces that agree. -/
theorem Surface.Agree.narrowByRule_eq {surface twin : Surface} (h : surface.Agree twin) :
    (rule : Rule) → ∀ scope, surface.narrowByRule rule scope = twin.narrowByRule rule scope
  | .blank, scope => by rw [Surface.narrowByRule, Surface.narrowByRule]
  | .scope name param, scope => h.narrowByRule_scope_eq name param scope
  | .leaf attr arguments, scope => by
    rw [Surface.narrowByRule, Surface.narrowByRule, h.narrowByAttribute_eq]
  | .composite rules conjunction, scope => by
    rw [Surface.narrowByRule_composite, Surface.narrowByRule_composite,
      h.combine_eq (narrowByAll_eq h rules surface.all) (branches_eq h rules)]

/-- Surfaces that agree narrow by a list of rules alike. -/
theorem Surface.Agree.narrowByAll_eq {surface twin : Surface} (h : surface.Agree twin) :
    (rules : List Rule) → ∀ scope, surface.narrowByAll rules scope = twin.narrowByAll rules scope
  | [], scope => by rw [Surface.narrowByAll, Surface.narrowByAll]
  | rule :: rest, scope => by
    rw [Surface.narrowByAll, Surface.narrowByAll, narrowByRule_eq h rule scope]
    exact congrArg _ (funext fun narrowed => narrowByAll_eq h rest narrowed)

theorem Surface.Agree.branches_eq {surface twin : Surface} (h : surface.Agree twin) :
    (rules : List Rule) → surface.branches rules = twin.branches rules
  | [] => by rw [Surface.branches, Surface.branches]
  | rule :: rest => by
    rw [Surface.branches, Surface.branches, h.all_eq, narrowByRule_eq h rule twin.all,
      branches_eq h rest]

end

/-! ## Compiled twins -/

/-- Lists agree on a key if they have the same keys and the same values under this one. -/
theorem Keyed.lookup_congr {α : Type} {key : String} {entries changed : Keyed α}
    (h : List.Forall₂ (fun entry other => entry.1 = other.1 ∧ (entry.1 = key → entry.2 = other.2))
      entries changed) : entries.lookup key = changed.lookup key := by
  induction h with
  | nil => rfl
  | @cons entry other rest others hentry _ ih =>
    obtain ⟨name, value⟩ := entry
    obtain ⟨same, found⟩ := other
    obtain ⟨hname, hvalue⟩ := hentry
    cases hname
    -- of the key itself the values are the same; other keys are passed over on both sides
    by_cases heq : key = name
    · have hfound : value = found := hvalue heq.symm
      rw [heq, hfound, List.lookup_cons_self, List.lookup_cons_self]
    · rw [List.lookup_cons, List.lookup_cons, beq_false_of_ne heq, ih]

/-- Two linked associations that are the same, to surfaces that agree. -/
def LinksAgree (link changed : Association × Surface) : Prop :=
  link.1 = changed.1 ∧ link.2.Agree changed.2

/-- Associations with surfaces that agree give the same filters, as named scopes make none. -/
theorem LinksAgree.filters_eq {link changed : Association × Surface} (h : LinksAgree link changed)
    (owner : Table) : link.1.filters owner link.2 = changed.1.filters owner changed.2 := by
  obtain ⟨hassociation, hagree⟩ := h
  rw [Association.filters, Association.filters, hassociation, hagree.table_eq, hagree.types_eq,
    hagree.filters_eq]

/-- Of a related model an owner takes the named scopes that this model allows. -/
theorem LinksAgree.scopes_eq {link changed : Association × Surface} (h : LinksAgree link changed)
    (owner : Table) : link.1.scopes owner link.2 = changed.1.scopes owner changed.2 := by
  obtain ⟨hassociation, hagree⟩ := h
  rw [Association.scopes, Association.scopes, hassociation, ← hagree.allowedScopes_eq]
  refine List.map_congr_left fun name hname => ?_
  rw [hagree.scopes_eq name hname, hagree.table_eq]

namespace Declaration

variable {declaration : Declaration} {scopes : List (String × ScopeFunction)}

/-- Other functions under hidden names change nothing that is found under allowed names. -/
theorem surface_agree (defaults : Limits)
    (hscopes : List.Forall₂ (SameUnlessHidden declaration.allowedScopes)
      declaration.namedScopes scopes)
    {linked changed : List (Association × Surface)}
    (hlinked : List.Forall₂ LinksAgree linked changed) :
    (declaration.surface defaults linked).Agree
      ({ declaration with namedScopes := scopes }.surface defaults changed) where
  table_eq := rfl
  types_eq := rfl
  limits_eq := rfl
  allowedScopes_eq := rfl
  filters_eq := by
    have hfilters := flatMap_eq_of_forall₂ hlinked fun _ _ h => h.filters_eq declaration.table
    -- named scopes give no filters, so the first part is the same on both sides
    show Keyed.ofList (declaration.ownFilters ++ _) = Keyed.ofList (declaration.ownFilters ++ _)
    rw [hfilters]
  scopes_eq name hname := by
    have hallowed : name ∈ declaration.allowedScopes := List.mem_eraseDups.mp hname
    have hthrough := flatMap_eq_of_forall₂ hlinked fun _ _ h => h.scopes_eq declaration.table
    have hown : (declaration.namedScopes.map fun entry =>
          (entry.1, NamedScope.own entry.2)).reverse.lookup name =
        (scopes.map fun entry => (entry.1, NamedScope.own entry.2)).reverse.lookup name := by
      refine Keyed.lookup_congr (List.forall₂_reverse_iff.mpr ?_)
      rw [List.forall₂_map_left_iff, List.forall₂_map_right_iff]
      refine hscopes.imp fun entry other hentry => ⟨hentry.1, fun heq => ?_⟩
      have hsame : entry.2 = other.2 := hentry.2 (heq ▸ hallowed)
      exact congrArg NamedScope.own hsame
    -- what comes through associations is written later and is found first
    show (Keyed.ofList _).lookup name = (Keyed.ofList _).lookup name
    rw [Keyed.lookup_ofList, Keyed.lookup_ofList, List.reverse_append, List.reverse_append,
      List.lookup_append, List.lookup_append, hthrough]
    exact congrArg _ hown

variable {lookUp lookUpOther : String → Option Surface}

/-- An association is linked whether or not named scopes are changed: only the related surface
matters, and there is one that agrees. -/
theorem link_agree {association : AssociationDeclaration} {link : Association × Surface}
    (hlookUp : ∀ related, lookUp association.model = some related →
      ∃ twin, lookUpOther association.model = some twin ∧ related.Agree twin)
    (h : declaration.link lookUp association = .ok link) :
    ∃ changed, { declaration with namedScopes := scopes }.link lookUpOther association =
      .ok changed ∧ LinksAgree link changed := by
  obtain ⟨_, hname, h⟩ := bind_eq_ok.mp h
  obtain ⟨_, hforeignKey, h⟩ := bind_eq_ok.mp h
  cases hrelated : lookUp association.model with
  | none =>
    rw [hrelated] at h
    cases h
  | some related =>
    obtain ⟨twin, htwin, hagree⟩ := hlookUp related hrelated
    rw [hrelated] at h
    obtain ⟨_, hcolumn, h⟩ := bind_eq_ok.mp h
    cases h
    rw [hagree.table_eq] at hcolumn ⊢
    refine ⟨(_, twin), bind_eq_ok.mpr ⟨_, hname, bind_eq_ok.mpr ⟨_, hforeignKey, ?_⟩⟩, rfl, hagree⟩
    rw [htwin]
    exact bind_eq_ok.mpr ⟨_, hcolumn, rfl⟩

/-- The same for all associations of a declaration. -/
theorem links_agree (hlookUp : ∀ model related, lookUp model = some related →
      ∃ twin, lookUpOther model = some twin ∧ related.Agree twin)
    {associations : List AssociationDeclaration} {linked : List (Association × Surface)}
    (h : associations.mapM (declaration.link lookUp) = .ok linked) :
    ∃ changed, associations.mapM ({ declaration with namedScopes := scopes }.link lookUpOther) =
      .ok changed ∧ List.Forall₂ LinksAgree linked changed := by
  have hforall := mapM_eq_ok.mp h
  clear h
  induction hforall with
  | nil => exact ⟨[], rfl, .nil⟩
  | cons hlink _ ih =>
    obtain ⟨first, hfirst, hagree⟩ := link_agree (hlookUp _) hlink
    obtain ⟨others, hothers, hagrees⟩ := ih
    exact ⟨first :: others, mapM_eq_ok.mpr (.cons hfirst (mapM_eq_ok.mp hothers)),
      .cons hagree hagrees⟩

/-- Where a declaration compiles, one that differs in what is hidden compiles as well, and the
surfaces agree. -/
theorem SameButHidden.compile_agree {other : Declaration} (hsame : declaration.SameButHidden other)
    (hlookUp : ∀ model related, lookUp model = some related →
      ∃ twin, lookUpOther model = some twin ∧ related.Agree twin)
    {defaults : Limits} {surface : Surface}
    (h : declaration.compile lookUp defaults = .ok surface) :
    ∃ twin, other.compile lookUpOther defaults = .ok twin ∧ surface.Agree twin := by
  obtain ⟨hscopes⟩ := hsame
  obtain ⟨hnames, hattributes, hcolumns, hnamed, hallowed, linked, hlinked, rfl⟩ :=
    compile_eq_ok.mp h
  obtain ⟨changed, hchanged, hagree⟩ := links_agree hlookUp hlinked
  refine ⟨_, compile_eq_ok.mpr ⟨hnames, hattributes, hcolumns, ?_, hallowed, changed, hchanged,
    rfl⟩, surface_agree defaults hscopes hagree⟩
  -- the names that are checked are the same
  rw [forM_eq_ok] at hnamed ⊢
  intro entry hentry
  obtain ⟨old, hold, hname, -⟩ := exists_mem_left_of_forall₂ hscopes hentry
  rw [← hname]
  exact hnamed old hold

end Declaration

/-- Twins agree on all that rules can reach. -/
theorem Surface.Twins.agree {surface twin : Surface} (h : surface.Twins twin) :
    surface.Agree twin := by
  induction h with
  | @compiled declaration other lookUp lookUpOther defaults surface twin hsame hnone _ hcompile
      hother ih =>
    have hlookUp : ∀ model related, lookUp model = some related →
        ∃ changed, lookUpOther model = some changed ∧ related.Agree changed := by
      intro model related hrelated
      cases hchanged : lookUpOther model with
      | none =>
        rw [(hnone model).mpr hchanged] at hrelated
        cases hrelated
      | some changed => exact ⟨changed, rfl, ih model related changed hrelated hchanged⟩
    obtain ⟨same, hsame, hagree⟩ := hsame.compile_agree hlookUp hcompile
    cases hsame.symm.trans hother
    exact hagree

/-! ## Registered twins -/

theorem SameUnlessHidden.symm {allowed : List String} {entry changed : String × ScopeFunction}
    (h : SameUnlessHidden allowed entry changed) : SameUnlessHidden allowed changed entry :=
  ⟨h.1.symm, fun hallowed => (h.2 (h.1 ▸ hallowed)).symm⟩

theorem Declaration.SameButHidden.symm {declaration other : Declaration}
    (h : declaration.SameButHidden other) : other.SameButHidden declaration := by
  obtain ⟨hscopes⟩ := h
  exact .replaced (List.Forall₂.flip (hscopes.imp fun _ _ hentry => hentry.symm))

theorem Surface.Agree.symm {surface twin : Surface} (h : surface.Agree twin) :
    twin.Agree surface where
  table_eq := h.table_eq.symm
  types_eq := h.types_eq.symm
  limits_eq := h.limits_eq.symm
  allowedScopes_eq := h.allowedScopes_eq.symm
  filters_eq := h.filters_eq.symm
  scopes_eq name hname := (h.scopes_eq name (h.allowedScopes_eq ▸ hname)).symm

namespace Catalog

/-- Two catalogs have surfaces for the same models, and these are twins. -/
structure Twins (catalog other : Catalog) : Prop where
  limits_eq : catalog.limits = other.limits
  none_iff : ∀ model, catalog.get? model = none ↔ other.get? model = none
  twins : ∀ model surface twin, catalog.get? model = some surface →
    other.get? model = some twin → surface.Twins twin

/-- What one of two twin catalogs has, the other one has in a surface that agrees. -/
theorem Twins.exists_agree {catalog other : Catalog} (h : catalog.Twins other) {model : String}
    {surface : Surface} (hsurface : catalog.get? model = some surface) :
    ∃ twin, other.get? model = some twin ∧ surface.Agree twin := by
  cases htwin : other.get? model with
  | none =>
    rw [(h.none_iff model).mpr htwin] at hsurface
    cases hsurface
  | some twin => exact ⟨twin, rfl, (h.twins model surface twin hsurface htwin).agree⟩

theorem Twins.exists_agree_left {catalog other : Catalog} (h : catalog.Twins other)
    {model : String} {twin : Surface} (htwin : other.get? model = some twin) :
    ∃ surface, catalog.get? model = some surface ∧ twin.Agree surface := by
  cases hsurface : catalog.get? model with
  | none =>
    rw [(h.none_iff model).mp hsurface] at htwin
    cases htwin
  | some surface =>
    exact ⟨surface, rfl, (h.twins model surface twin hsurface htwin).agree.symm⟩

/-- Twin catalogs stay twins if twin surfaces are put in. -/
theorem Twins.insert {catalog other : Catalog} (h : catalog.Twins other) {surface twin : Surface}
    (htwins : surface.Twins twin) : (catalog.insert surface).Twins (other.insert twin) := by
  have hmodel : surface.model = twin.model := congrArg Table.model htwins.agree.table_eq
  refine ⟨h.limits_eq, fun model => ?_, fun model found changed hfound hchanged => ?_⟩
  · by_cases heq : model = twin.model
    · rw [heq, get?_insert, ← hmodel, get?_insert]
      simp
    · rw [get?_insert_of_ne other twin heq, get?_insert_of_ne catalog surface (hmodel ▸ heq)]
      exact h.none_iff model
  · by_cases heq : model = twin.model
    · rw [heq, get?_insert] at hchanged
      rw [heq, ← hmodel, get?_insert] at hfound
      cases hchanged
      cases hfound
      exact htwins
    · rw [get?_insert_of_ne other twin heq] at hchanged
      rw [get?_insert_of_ne catalog surface (hmodel ▸ heq)] at hfound
      exact h.twins model found changed hfound hchanged

/-- Of two declarations that differ in what is hidden both are rejected or neither. -/
theorem Twins.submit {catalog other : Catalog} (h : catalog.Twins other)
    {declaration changed : Declaration} (hsame : declaration.SameButHidden changed) :
    (catalog.submit declaration).Twins (other.submit changed) := by
  rw [submit_eq, submit_eq, ← h.limits_eq]
  cases hsurface : declaration.compile catalog.get? catalog.limits with
  | ok surface =>
    obtain ⟨twin, htwin, -⟩ := hsame.compile_agree (fun _ _ => h.exists_agree) hsurface
    rw [htwin]
    exact h.insert (.compiled hsame h.none_iff h.twins hsurface htwin)
  | error rejection =>
    cases htwin : changed.compile other.get? catalog.limits with
    | error rejection => exact h
    | ok twin =>
      obtain ⟨surface, hok, -⟩ :=
        hsame.symm.compile_agree (fun _ _ => h.exists_agree_left) htwin
      rw [hsurface] at hok
      cases hok

/-- Declarations that are the same but for hidden named scopes keep catalogs twins, registered one
after the other. -/
theorem Twins.registerAll {catalog other : Catalog} (h : catalog.Twins other)
    {declarations changed : List Declaration}
    (hsame : List.Forall₂ Declaration.SameButHidden declarations changed) :
    (catalog.registerAll declarations).Twins (other.registerAll changed) := by
  induction hsame generalizing catalog other with
  | nil => exact h
  | cons hfirst _ ih => exact ih (h.submit hfirst)

theorem twins_empty (limits : Limits) : (empty limits).Twins (empty limits) :=
  ⟨rfl, fun _ => Iff.rfl, fun _ _ _ h => nomatch h⟩

end Catalog

/-! ## Filtering -/

/-- No filtering by rules, by an untrusted value or by an untrusted text tells twins apart: the
results are the same, and so are the rejections. -/
theorem Surface.narrow_eq_of_twins {surface twin : Surface} (h : surface.Twins twin) :
    (∀ base rules conjunction,
      surface.narrowByRules base rules conjunction = twin.narrowByRules base rules conjunction) ∧
    (∀ base value conjunction,
      surface.narrowByJson base value conjunction = twin.narrowByJson base value conjunction) ∧
    ∀ decode base text conjunction, surface.narrowByTextWith decode base text conjunction =
      twin.narrowByTextWith decode base text conjunction := by
  have hagree := h.agree
  have hrules : ∀ base rules conjunction,
      surface.narrowByRules base rules conjunction =
        twin.narrowByRules base rules conjunction := by
    intro base rules conjunction
    rw [narrowByRules, narrowByRules, hagree.combine_eq (hagree.narrowByAll_eq rules surface.all)
      (hagree.branches_eq rules)]
  have hreader : surface.reader = twin.reader := by
    rw [reader, reader, hagree.allowedScopes_eq, hagree.limits_eq]
  refine ⟨hrules, fun base value conjunction => ?_, fun decode base text conjunction => ?_⟩
  · rw [narrowByJson, narrowByJson, hreader]
    exact congrArg _ (funext fun rules => hrules base rules conjunction)
  · rw [narrowByTextWith, narrowByTextWith, hreader]
    exact congrArg _ (funext fun rules => hrules base rules conjunction)

/-! ### Articles and their authors -/

/-- The authors of at most an age. -/
def authorsUpTo : ScopeFunction := fun scope arguments =>
  .ok (scope.narrow [.compares (.column ⟨scope.table, "age"⟩) .atMost
    (arguments.values.headD (.number (.integer 30)))])

/-- Authors and articles; rules may ask for young authors, and `hidden` is for the program alone. -/
def articleDeclarations (hidden : ScopeFunction) : List Declaration :=
  [{ Declaration.basic (.declare "Author" "authors" "id" [("age", .integer)]) ["age"] [] with
      namedScopes := [("young", authorsUpTo), ("banned", hidden)]
      allowedScopes := ["young"] },
    { Declaration.basic (.declare "Article" "articles" "id" [("author_id", .integer)]) []
        [⟨.belongsTo, "author", "author_id", "Author"⟩] with
      namedScopes := [("draft", hidden), ("author_banned", hidden)]
      allowedScopes := ["author_young"] }]

theorem twins_articleDeclarations (hidden other : ScopeFunction) :
    ((Catalog.empty Limits.default).registerAll (articleDeclarations hidden)).Twins
      ((Catalog.empty Limits.default).registerAll (articleDeclarations other)) := by
  have hbanned : "banned" ∉ ["young"] := by decide
  have hdraft : "draft" ∉ ["author_young"] := by decide
  have hthrough : "author_banned" ∉ ["author_young"] := by decide
  refine (Catalog.twins_empty Limits.default).registerAll (.cons ?_ (.cons ?_ .nil))
  · exact .replaced (.cons ⟨rfl, fun _ => rfl⟩ (.cons ⟨rfl, fun h => absurd h hbanned⟩ .nil))
  · exact .replaced (.cons ⟨rfl, fun h => absurd h hdraft⟩
      (.cons ⟨rfl, fun h => absurd h hthrough⟩ .nil))

namespace Surface

/-- Articles whose hidden named scopes do nothing. -/
def articles : Surface :=
  (((Catalog.empty Limits.default).registerAll
    (articleDeclarations fun scope _ => .ok scope)).get? "Article").get rfl

/-- Articles whose hidden named scopes leave nothing. -/
def guardedArticles : Surface :=
  (((Catalog.empty Limits.default).registerAll
    (articleDeclarations fun scope _ => .ok (scope.narrow [.impossible]))).get? "Article").get rfl

/-- The articles of young authors are found on both surfaces, and on neither does a rule get at the
named scopes that tell them apart. -/
theorem narrow_eq_of_twins_articles : ∃ result,
    articles.Twins guardedArticles ∧
    articles.narrowByScope "draft" (.positional []) articles.all = .ok articles.all ∧
    guardedArticles.narrowByScope "draft" (.positional []) articles.all =
      .ok (articles.all.narrow [.impossible]) ∧
    articles.narrowByJson articles.all (.array [.object [("column", .string "author_young")]])
      .exclusive = .ok result ∧
    result.names = ["articles", "author"] ∧
    guardedArticles.narrowByJson articles.all
      (.array [.object [("column", .string "author_young")]]) .exclusive = .ok result ∧
    articles.narrowByRules articles.all [.scope "draft" .null] .exclusive =
      .error (.unfilterable "draft") ∧
    guardedArticles.narrowByRules articles.all [.scope "draft" .null] .exclusive =
      .error (.unfilterable "draft") := by
  have harticles : ((Catalog.empty Limits.default).registerAll
      (articleDeclarations fun scope _ => .ok scope)).get? "Article" = some articles :=
    (Option.some_get _).symm
  have hguarded : ((Catalog.empty Limits.default).registerAll
      (articleDeclarations fun scope _ => .ok (scope.narrow [.impossible]))).get? "Article" =
        some guardedArticles := (Option.some_get _).symm
  have htwins : articles.Twins guardedArticles :=
    (twins_articleDeclarations _ _).twins "Article" _ _ harticles hguarded
  obtain ⟨hrules, hjson, -⟩ := narrow_eq_of_twins htwins
  have hyoung : articles.narrowByJson articles.all
      (.array [.object [("column", .string "author_young")]]) .exclusive = .ok _ := rfl
  have hdraft : articles.narrowByRules articles.all [.scope "draft" .null] .exclusive =
      .error (.unfilterable "draft") := rfl
  refine ⟨_, htwins, rfl, rfl, hyoung, rfl, ?_, hdraft, ?_⟩
  · rw [← hjson, hyoung]
  · rw [← hrules, hdraft]

end Surface

end Sift
