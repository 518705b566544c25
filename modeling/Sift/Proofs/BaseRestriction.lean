import Sift.Proofs.LeftJoins
import Sift.Proofs.Outcomes
import Sift.Surface.Composition

/-!
# What the base requires is never lost

Filtering a base scope puts joins and conditions behind those of the base, whatever the rules are
and whatever the named scopes do with the scopes that they are given. So a row that the base leaves
out stays out: the added joins come after those of the base, and they cannot change what the base's
conditions are about as long as their qualifiers are new.
-/

namespace Sift

/-- A scope over the same table that begins with the joins and the conditions of another one. -/
structure Scope.Extends (scope base : Scope) : Prop where
  model_eq : scope.model = base.model
  table_eq : scope.table = base.table
  primaryKey_eq : scope.primaryKey = base.primaryKey
  conditions_prefix : base.conditions <+: scope.conditions
  joins_prefix : base.joins <+: scope.joins

namespace Scope

theorem Extends.refl (scope : Scope) : scope.Extends scope :=
  ⟨rfl, rfl, rfl, List.prefix_rfl, List.prefix_rfl⟩

/-- What extends an extension extends the base. -/
theorem Extends.trans {scope between base : Scope} (h : scope.Extends between)
    (hbase : between.Extends base) : scope.Extends base where
  model_eq := h.model_eq.trans hbase.model_eq
  table_eq := h.table_eq.trans hbase.table_eq
  primaryKey_eq := h.primaryKey_eq.trans hbase.primaryKey_eq
  conditions_prefix := hbase.conditions_prefix.trans h.conditions_prefix
  joins_prefix := hbase.joins_prefix.trans h.joins_prefix

theorem extends_conjoin (scope other : Scope) : (scope.conjoin other).Extends scope where
  model_eq := rfl
  table_eq := rfl
  primaryKey_eq := rfl
  conditions_prefix := List.prefix_append scope.conditions other.conditions
  joins_prefix := prefix_addJoins scope.joins other.joins

section

variable {Value : Type} [DecidableEq Value] {data : Data Value}

/-- Each line of a scope comes from a line of the base that agrees with it on the base's
qualifiers. -/
theorem Extends.exists_line {scope base : Scope} (h : scope.Extends base)
    (hnodup : scope.names.Nodup) {line : View Value}
    (hline : line ∈ views data scope.table scope.joins) :
    ∃ before ∈ views data base.table base.joins, line.AgreeOn base.names before := by
  obtain ⟨added, hjoins⟩ := h.joins_prefix
  obtain ⟨row, hrow, hjoined⟩ := mem_views.mp hline
  rw [← hjoins] at hjoined
  obtain ⟨before, hbefore, hadded⟩ := mem_joined_append.mp hjoined
  rw [h.table_eq] at hrow hbefore
  refine ⟨before, mem_views.mpr ⟨row, hrow, hbefore⟩, base_of_mem_joined hadded, ?_⟩
  intro qualifier hqualifier
  -- the names of the scope are those of the base followed by those of the added joins
  have hnames : scope.names = base.names ++ added.map Join.qualifier := by
    rw [names, names, h.table_eq, ← hjoins, List.map_append, List.cons_append]
  rw [hnames] at hnodup
  exact named_of_mem_joined hadded (List.disjoint_of_nodup_append hnodup hqualifier)

/-- A scope that extends a base under new qualifiers selects no row that the base does not
select. -/
theorem Extends.rows_subset {scope base : Scope} (h : scope.Extends base)
    (hdeclared : base.OperandsDeclared) (hnodup : scope.names.Nodup) :
    scope.rows data ⊆ base.rows data := by
  intro key hkey
  obtain ⟨line, hline, hkeeps, rfl⟩ := mem_rows.mp hkey
  obtain ⟨before, hbefore, hagree⟩ := h.exists_line hnodup hline
  refine mem_rows.mpr ⟨before, hbefore, ?_, by rw [hagree.1, h.primaryKey_eq]⟩
  rw [← hagree.keeps_iff hdeclared]
  exact fun condition hcondition => hkeeps condition (h.conditions_prefix.subset hcondition)

end

end Scope

namespace Surface

/-- Filtering by rules leaves the base alone or conjoins it with what the rules stand for. -/
theorem narrowByRules_eq_ok {surface : Surface} {base result : Scope} {rules : List Rule}
    {conjunction : Conjunction} :
    surface.narrowByRules base rules conjunction = .ok result ↔
      rules = [] ∧ result = base ∨
      rules ≠ [] ∧ ∃ combined, surface.combine rules conjunction = .ok combined ∧
        result = base.conjoin combined := by
  unfold narrowByRules
  cases rules with
  | nil => simp [eq_comm]
  | cons first rest => simp [map_eq_ok, @eq_comm _ result]

/-- Filtering by rules only adds to the base, whatever the named scopes do. -/
theorem extends_of_narrowByRules {surface : Surface} {base result : Scope} {rules : List Rule}
    {conjunction : Conjunction} (h : surface.narrowByRules base rules conjunction = .ok result) :
    result.Extends base := by
  rcases narrowByRules_eq_ok.mp h with ⟨-, rfl⟩ | ⟨-, combined, -, rfl⟩
  · exact Scope.Extends.refl result
  · exact Scope.extends_conjoin base combined

/-- A scope that filtering a base can give: by rules, by an untrusted value or by an untrusted text,
whatever makes a value of the text. -/
def Gives (surface : Surface) (base : Scope) (conjunction : Conjunction) (result : Scope) : Prop :=
  (∃ rules, surface.narrowByRules base rules conjunction = .ok result) ∨
  (∃ value, surface.narrowByJson base value conjunction = .ok result) ∨
  ∃ decode text, surface.narrowByTextWith decode base text conjunction = .ok result

/-- Each way of filtering comes down to rules that were read. -/
theorem Gives.exists_rules {surface : Surface} {base result : Scope} {conjunction : Conjunction}
    (h : surface.Gives base conjunction result) :
    ∃ rules, surface.narrowByRules base rules conjunction = .ok result := by
  rcases h with h | ⟨value, h⟩ | ⟨decode, text, h⟩
  · exact h
  · obtain ⟨rules, -, h⟩ := bind_eq_ok.mp h
    exact ⟨rules, h⟩
  · obtain ⟨rules, -, h⟩ := bind_eq_ok.mp h
    exact ⟨rules, h⟩

/-- Whatever the rules and the named scopes are, the result of filtering has the model, the table,
the primary key, the first conditions and the first joins of the base. So it selects no row that the
base does not select, if the base's conditions are about the base's own tables and no qualifier is
given twice. -/
theorem base_survives {surface : Surface} {base result : Scope} {conjunction : Conjunction}
    (h : surface.Gives base conjunction result) :
    result.Extends base ∧
      (base.OperandsDeclared → result.names.Nodup →
        ∀ {Value : Type} [DecidableEq Value] (data : Data Value),
          result.rows data ⊆ base.rows data) := by
  obtain ⟨rules, hrules⟩ := h.exists_rules
  have hextends := extends_of_narrowByRules hrules
  exact ⟨hextends, fun hdeclared hnodup _ _ _ => hextends.rows_subset hdeclared hnodup⟩

/-! ### A tenant's invoices -/

/-- Invoices with a named scope that forgets the scope it is given and joins the customers. -/
def invoices : Surface :=
  let table := Table.declare "Invoice" "invoices" "id" [("tenant", .integer), ("state", .string)]
  { table := table
    types := table.types
    limits := Limits.default
    attributes := ["state"]
    virtualColumns := []
    associations := []
    allowedScopes := ["everybody"]
    filters := [("state", .own table.types (.column "state"))]
    scopes := [("everybody", .own fun scope _ => .ok (scope.cleared.withJoin
      ⟨"customers", "customer", ⟨"customer", "id"⟩, ⟨"invoices", "customer_id"⟩⟩))] }

/-- The invoices of one tenant. -/
def tenantInvoices : Scope :=
  invoices.all.narrow
    [.compares (.column ⟨"invoices", "tenant"⟩) .equal (.number (.integer 1))]

/-- A rule that asks for everybody's invoices does not get beyond the tenant's own. -/
theorem base_survives_everybody :
    ∃ result, invoices.Gives tenantInvoices .exclusive result ∧
      result.Extends tenantInvoices ∧ tenantInvoices.OperandsDeclared ∧ result.names.Nodup ∧
      ∀ data : Data Nat, result.rows data ⊆ tenantInvoices.rows data := by
  have h : invoices.Gives tenantInvoices .exclusive _ :=
    Or.inl ⟨[.leaf "state" ⟨.equals, .string "open", false⟩, .scope "everybody" .null], rfl⟩
  have hdeclared : tenantInvoices.OperandsDeclared := by decide
  exact ⟨_, h, (base_survives h).1, hdeclared, by decide,
    (base_survives h).2 hdeclared (by decide)⟩

end Surface

end Sift
