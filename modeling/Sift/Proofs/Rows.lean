import Mathlib.Data.List.Nodup
import Mathlib.Data.Set.Basic
import Mathlib.Logic.Function.Basic
import Sift.Scope.Joined

/-!
# The rows of a scope

What a scope selects from a database: the primary keys of the rows of its table that, beside the
rows joined to them, satisfy every condition. The page does not count.

Conditions have three truth values, as a comparison with null is neither true nor false, and a row
is kept only where all of them are true. A left join keeps every row: a row without a partner has a
row of nulls beside it, and null is nobody's partner.

What the database itself decides (the order of values, the search in a text, the value of an
expression) is a parameter. The value of an expression depends on the row of the scope's own table
only. The main statements say which rows belong to a scope, and that the truth of a condition
depends on the values of its operands alone.
-/

namespace Sift

/-! ## Truth values -/

/-- A truth value of the logic with nulls. -/
inductive Truth
  | yes
  | no
  | unknown
deriving DecidableEq, Repr

namespace Truth

def ofBool (test : Bool) : Truth :=
  if test then yes else no

/-- Negation; what is unknown stays so. -/
def negate : Truth → Truth
  | yes => no
  | no => yes
  | unknown => unknown

/-- Disjunction; it is unknown only if nothing is true and something is unknown. -/
def or : Truth → Truth → Truth
  | yes, _ => yes
  | no, second => second
  | unknown, yes => yes
  | unknown, _ => unknown

/-- The disjunction of many truth values; none of them gives `no`. -/
def any : List Truth → Truth
  | [] => no
  | first :: rest => first.or (any rest)

/-- Whether two values are equal; with null this is unknown. -/
def equal {Value : Type} [DecidableEq Value] : Option Value → Option Value → Truth
  | some first, some second => ofBool (first = second)
  | _, _ => unknown

/-- A disjunction is true if one side is; that the other side may be unknown does not matter. -/
theorem or_eq_yes {first second : Truth} : first.or second = yes ↔ first = yes ∨ second = yes := by
  cases first <;> cases second <;> simp [or]

/-- A disjunction is false only if both sides are. -/
theorem or_eq_no {first second : Truth} : first.or second = no ↔ first = no ∧ second = no := by
  cases first <;> cases second <;> simp [or]

/-- A negation is true only where the contrary is false, so never where it is unknown. -/
theorem negate_eq_yes {truth : Truth} : truth.negate = yes ↔ truth = no := by
  cases truth <;> simp [negate]

/-- One true member makes a disjunction true. -/
theorem any_eq_yes {truths : List Truth} : any truths = yes ↔ yes ∈ truths := by
  induction truths with
  | nil => simp [any]
  | cons first rest ih => rw [any, or_eq_yes, ih, List.mem_cons, eq_comm]

/-- A single unknown member keeps a disjunction from being false. -/
theorem any_eq_no {truths : List Truth} : any truths = no ↔ ∀ truth ∈ truths, truth = no := by
  induction truths with
  | nil => simp [any]
  | cons first rest ih => rw [any, or_eq_no, ih, List.forall_mem_cons]

section

variable {Value : Type} [DecidableEq Value] {first second : Option Value}

/-- Equality is true of two values that are the same and not null; in joins and memberships this is
the only way to match. -/
theorem equal_eq_yes :
    equal first second = yes ↔ ∃ value, first = some value ∧ second = some value := by
  cases first with
  | none => simp [equal]
  | some value => cases second <;> simp [equal, ofBool, eq_comm]

/-- Equality is false of two different values, and open as soon as one side is null. -/
theorem equal_eq_no : equal first second = no ↔
    ∃ value other, first = some value ∧ second = some other ∧ value ≠ other := by
  cases first with
  | none => simp [equal]
  | some value => cases second <;> simp [equal, ofBool]

end

end Truth

/-! ## Databases -/

/-- A row of a table: the value in each column, and nothing where it is null. -/
abbrev Row (Value : Type) := String → Option Value

/-- The row of nulls. -/
def Row.null {Value : Type} : Row Value := fun _ => none

/-- The contents of a database, and what it decides about values by itself. -/
structure Data (Value : Type) where
  /-- The rows of each table. -/
  rows : String → List (Row Value)
  /-- Whether a value compares with a parameter; neither is null. -/
  compare : Comparison → Value → Json → Truth
  /-- Whether a value contains a parameter, in any letter case; neither is null. -/
  contains : Value → Json → Truth
  /-- The value of an expression on a row. -/
  expression : String → Row Value → Option Value

/-- The primary key of a table is never null and no two rows share one. -/
structure Data.Keyed {Value : Type} (data : Data Value) (table : Table) : Prop where
  present : ∀ row ∈ data.rows table.name, row table.primaryKey ≠ none
  unique : ((data.rows table.name).map fun row => row table.primaryKey).Nodup

instance {Value : Type} [DecidableEq Value] (data : Data Value) (table : Table) :
    Decidable (data.Keyed table) :=
  decidable_of_iff
    ((∀ row ∈ data.rows table.name, row table.primaryKey ≠ none) ∧
      ((data.rows table.name).map fun row => row table.primaryKey).Nodup)
    ⟨fun h => ⟨h.1, h.2⟩, fun h => ⟨h.present, h.unique⟩⟩

/-- A database of numbers, by the columns that are not null. Numbers are compared, and nothing is
searched or computed. -/
def Data.ofTables (tables : List (String × List (List (String × Nat)))) : Data Nat where
  rows table := ((tables.lookup table).getD []).map fun cells column => cells.lookup column
  compare comparison value param :=
    match comparison, param with
    | .equal, .number (.integer number) => Truth.ofBool (value = number)
    | .atLeast, .number (.integer number) => Truth.ofBool (number ≤ value)
    | .atMost, .number (.integer number) => Truth.ofBool (value ≤ number)
    | _, _ => .unknown
  contains _ _ := .unknown
  expression _ _ := none

/-- A row of a table is known by its primary key. -/
theorem Data.Keyed.eq_of_key_eq {Value : Type} {data : Data Value} {table : Table}
    (h : data.Keyed table) {first second : Row Value} (hfirst : first ∈ data.rows table.name)
    (hsecond : second ∈ data.rows table.name)
    (hkey : first table.primaryKey = second table.primaryKey) : first = second :=
  List.inj_on_of_nodup_map h.unique hfirst hsecond hkey

/-! ## Joined rows -/

/-- One line of the joined tables: the row of the scope's own table and the rows beside it. -/
@[ext] structure View (Value : Type) where
  base : Row Value
  /-- The row that is known under each qualifier. A qualifier given twice is that of the later
  table, and one that is not given has nulls only. -/
  named : String → Row Value

namespace View

variable {Value : Type}

/-- A row of the scope's own table with nothing beside it. -/
def start (table : String) (row : Row Value) : View Value :=
  ⟨row, Function.update (fun _ => Row.null) table row⟩

/-- The view with one more row beside it. -/
def bind (view : View Value) (qualifier : String) (row : Row Value) : View Value :=
  { view with named := Function.update view.named qualifier row }

def value (view : View Value) (column : Column) : Option Value :=
  view.named column.qualifier column.name

@[simp] theorem base_start (table : String) (row : Row Value) : (start table row).base = row := rfl

@[simp] theorem base_bind (view : View Value) (qualifier : String) (row : Row Value) :
    (view.bind qualifier row).base = view.base := rfl

@[simp] theorem named_start_self (table : String) (row : Row Value) :
    (start table row).named table = row := by
  simp [start]

theorem named_start_of_ne {table qualifier : String} (row : Row Value) (h : qualifier ≠ table) :
    (start table row).named qualifier = Row.null := by
  simp [start, h]

@[simp] theorem named_bind_self (view : View Value) (qualifier : String) (row : Row Value) :
    (view.bind qualifier row).named qualifier = row := by
  simp [bind]

/-- A row more leaves what is known under the other qualifiers. -/
theorem named_bind_of_ne (view : View Value) {qualifier other : String} (row : Row Value)
    (h : other ≠ qualifier) : (view.bind qualifier row).named other = view.named other := by
  simp [bind, h]

end View

section

variable {Value : Type} [DecidableEq Value] (data : Data Value)

/-- The rows that a join finds for a view: those with which its two columns are equal. -/
def Join.found (join : Join) (view : View Value) : List (Row Value) :=
  (data.rows join.table).filter fun row =>
    Truth.equal ((view.bind join.qualifier row).value join.left)
      ((view.bind join.qualifier row).value join.right) = .yes

/-- The rows that a join puts beside a view: those it finds, or a row of nulls for none. -/
def Join.partners (join : Join) (view : View Value) : List (Row Value) :=
  if (join.found data view).isEmpty then [Row.null] else join.found data view

/-- The lines that a view becomes when tables are joined to it, one after the other. -/
def joined : List Join → View Value → List (View Value)
  | [], view => [view]
  | join :: rest, view =>
    (join.partners data view).flatMap fun row => joined rest (view.bind join.qualifier row)

/-- The lines of a table with others joined to it. -/
def views (table : String) (joins : List Join) : List (View Value) :=
  (data.rows table).flatMap fun row => joined data joins (View.start table row)

/-! ## Truth of conditions -/

def Operand.value (view : View Value) : Operand → Option Value
  | .column source => view.value source
  | .expression sql => data.expression sql view.base

/-- A test of a value with a parameter; with null on either side its outcome is unknown. -/
def Truth.test (holds : Value → Json → Truth) (value : Option Value) (param : Json) : Truth :=
  match value with
  | none => unknown
  | some value => if param.isNull then unknown else holds value param

/-- Whether a value is among others; an equal one decides, and without one null leaves it open. -/
def Truth.among (value : Option Value) (values : List (Option Value)) : Truth :=
  any (values.map (equal value))

mutual

/-- Whether a condition holds on a line. A scope inside it selects from tables of its own. -/
def Condition.truth : Condition → View Value → Truth
  | .compares lhs comparison value, view =>
    Truth.test (data.compare comparison) (lhs.value data view) value
  | .isNull lhs, view => Truth.ofBool (lhs.value data view).isNone
  | .contains lhs needle, view => Truth.test data.contains (lhs.value data view) needle
  | .impossible, _ => .no
  | .isAmong lhs scope false, view => Truth.among (lhs.value data view) scope.keys
  | .isAmong lhs scope true, view => (Truth.among (lhs.value data view) scope.keys).negate
  | .anyOf members, view => Truth.any (truths members view)

/-- The primary keys of the lines on which every condition of a scope is true. -/
def Scope.keys : Scope → List (Option Value)
  | ⟨_, table, primaryKey, joins, conditions, _, _⟩ =>
    ((views data table joins).filter fun view => (truths conditions view).all (· = .yes)).map
      fun view => view.base primaryKey

/-- Whether each of several conditions holds on a line. -/
def truths : List Condition → View Value → List Truth
  | [], _ => []
  | condition :: rest, view => condition.truth view :: truths rest view

end

/-- The rows that a scope selects, by their primary keys. -/
def Scope.rows (scope : Scope) : Set (Option Value) :=
  {key | key ∈ scope.keys data}

instance (key : Option Value) (scope : Scope) : Decidable (key ∈ scope.rows data) :=
  inferInstanceAs (Decidable (key ∈ scope.keys data))

/-- Whether a scope keeps a line: all its conditions are true on it. -/
def Scope.Keeps (scope : Scope) (view : View Value) : Prop :=
  ∀ condition ∈ scope.conditions, condition.truth data view = .yes

end

/-! ## Which rows belong to a scope -/

section

variable {Value : Type} [DecidableEq Value] {data : Data Value}

/-- The recursion over conditions is that of a map; it is spelled out for termination only. -/
theorem truths_eq_map (conditions : List Condition) (view : View Value) :
    truths data conditions view = conditions.map fun condition => condition.truth data view := by
  induction conditions with
  | nil => rfl
  | cons condition rest ih => rw [truths, ih, List.map_cons]

/-- Which keys a scope selects: those of the lines of its joined tables that it keeps. The proofs
about rows begin here and do not open `Scope.keys`. -/
theorem Scope.mem_rows {scope : Scope} {key : Option Value} :
    key ∈ scope.rows data ↔
      ∃ view ∈ views data scope.table scope.joins,
        scope.Keeps data view ∧ view.base scope.primaryKey = key := by
  obtain ⟨model, table, primaryKey, joins, conditions, limit, offset⟩ := scope
  simp only [rows, Set.mem_ofPred_eq, keys, List.mem_map, List.mem_filter, truths_eq_map,
    List.all_map, List.all_eq_true, Function.comp_apply, decide_eq_true_eq, Keeps, and_assoc]

@[simp] theorem Scope.rows_withoutPage (scope : Scope) :
    scope.withoutPage.rows data = scope.rows data := by
  cases scope
  rfl

/-- A conjunction keeps a line if both scopes do. -/
theorem Scope.keeps_conjoin {scope other : Scope} {view : View Value} :
    (scope.conjoin other).Keeps data view ↔ scope.Keeps data view ∧ other.Keeps data view := by
  simp only [Keeps, conditions_conjoin, List.forall_mem_append]

/-- A narrowed scope keeps a line if the scope does and the new conditions are true on it. -/
theorem Scope.keeps_narrow {scope : Scope} {conditions : List Condition} {view : View Value} :
    (scope.narrow conditions).Keeps data view ↔
      scope.Keeps data view ∧ ∀ condition ∈ conditions, condition.truth data view = .yes := by
  simp only [Keeps, conditions_narrow, List.forall_mem_append]

/-- A value is known to be among others if it is one of them and not null. -/
theorem Truth.among_eq_yes {value : Option Value} {values : List (Option Value)} :
    among value values = yes ↔ ∃ known, value = some known ∧ some known ∈ values := by
  simp only [among, any_eq_yes, List.mem_map, equal_eq_yes]
  constructor
  · rintro ⟨_, hmem, known, rfl, rfl⟩
    exact ⟨known, rfl, hmem⟩
  · rintro ⟨known, rfl, hmem⟩
    exact ⟨_, hmem, known, rfl, rfl⟩

/-- A value that is not null lies outside of others that are not null in exactly the cases in which
it is none of them. -/
theorem Truth.negate_among_eq_yes {value : Option Value} {values : List (Option Value)}
    (hvalue : value ≠ none) (hvalues : none ∉ values) :
    (among value values).negate = yes ↔ value ∉ values := by
  obtain ⟨known, rfl⟩ := Option.ne_none_iff_exists'.mp hvalue
  rw [negate_eq_yes, among, any_eq_no, List.forall_mem_map]
  constructor
  · intro h hmem
    obtain ⟨first, second, h1, h2, hne⟩ := equal_eq_no.mp (h _ hmem)
    exact hne (Option.some.inj (h1.symm.trans h2))
  · intro h other hother
    obtain ⟨second, rfl⟩ := Option.ne_none_iff_exists'.mp fun hnone => hvalues (hnone ▸ hother)
    exact equal_eq_no.mpr ⟨known, second, rfl, rfl, fun heq => h (heq ▸ hother)⟩

/-- Being among the rows of a scope is membership, for a value that is not null. -/
theorem Condition.truth_isAmong {lhs : Operand} {scope : Scope} {view : View Value}
    (h : lhs.value data view ≠ none) :
    (Condition.isAmong lhs scope false).truth data view = .yes ↔
      lhs.value data view ∈ scope.rows data := by
  obtain ⟨known, hknown⟩ := Option.ne_none_iff_exists'.mp h
  rw [truth, Truth.among_eq_yes, hknown]
  simp [Scope.rows]

/-- Being outside the rows of a scope is the contrary, where no null is involved. -/
theorem Condition.truth_isAmong_negated {lhs : Operand} {scope : Scope} {view : View Value}
    (h : lhs.value data view ≠ none) (hrows : none ∉ scope.rows data) :
    (Condition.isAmong lhs scope true).truth data view = .yes ↔
      lhs.value data view ∉ scope.rows data := by
  rw [truth, Truth.negate_among_eq_yes h hrows]
  rfl

/-- A condition with alternatives is true on a line if one of them is. -/
theorem Condition.truth_anyOf {members : List Condition} {view : View Value} :
    (Condition.anyOf members).truth data view = .yes ↔
      ∃ condition ∈ members, condition.truth data view = .yes := by
  rw [truth, Truth.any_eq_yes, truths_eq_map, List.mem_map]

end

end Sift
