import Sift.Proofs.Parentheses
import Sift.Proofs.Placeholders
import Sift.Proofs.RegisteredNames

/-!
# Connectives in statements

The conditions of a scope stand behind one another with `AND` between them, and the members of a
disjunction with `OR`. A disjunction stands in parentheses, and so does a subquery. So whoever reads
the clause of a statement or a subquery and splits it at each `AND` outside of parentheses gets the
conditions of the scope, one by one, and meets no `OR` there; and inside the parentheses of a
disjunction each `OR` outside of further parentheses is between two of its members.

This holds as long as names are identifiers and the parentheses in expressions are nested. Nothing
is required of the words in expressions, as these stand in parentheses of their own.
-/

namespace Sift

/-! ## Texts of conditions -/

/-- The text of a condition whose first parameter has a number. -/
def Condition.textFrom (database : Database) (number : Nat) (condition : Condition) : String :=
  Piece.renderFrom database.placeholder number (condition.pieces database)

/-- The texts of conditions that stand behind one another. -/
def renderings (database : Database) : (number : Nat) → List Condition → List String
  | _, [] => []
  | number, condition :: rest =>
    condition.textFrom database number ::
      renderings database (number + (Piece.values (condition.pieces database)).length) rest

/-- The text of the conditions of a scope. -/
def Scope.conditionText (database : Database) (number : Nat) (scope : Scope) : String :=
  Piece.renderFrom database.placeholder number
    (connect " AND " (conditionPieces database scope.conditions))

/-- A condition that a scope holds: one that it requires, or an alternative of one that it holds. -/
inductive Scope.Holds (scope : Scope) : Condition → Prop
  | required {condition : Condition} (hmem : condition ∈ scope.conditions) : Holds scope condition
  | alternative {members : List Condition} {condition : Condition}
      (hholds : Holds scope (.anyOf members)) (hmem : condition ∈ members) : Holds scope condition

/-- The names of an operand are identifiers, or the parentheses of its expression are nested. -/
def Operand.Readable : Operand → Prop
  | .column source => Text.isIdentifier source.qualifier ∧ Text.isIdentifier source.name
  | .expression sql => Nested sql

/-- The names in a scope are identifiers and the parentheses of its expressions are nested. -/
structure Scope.Readable (scope : Scope) : Prop where
  names : scope.NamesProper
  expressions : ∀ sql, .expression sql ∈ operandsOf scope.conditions → Nested sql

instance (operand : Operand) : Decidable operand.Readable :=
  match operand with
  | .column source => inferInstanceAs
      (Decidable (Text.isIdentifier source.qualifier ∧ Text.isIdentifier source.name))
  | .expression sql => inferInstanceAs (Decidable (Nested sql))

/-- Every operand of a readable scope can be read. -/
theorem Scope.Readable.operand {scope : Scope} (h : scope.Readable) :
    ∀ operand ∈ operandsOf scope.conditions, operand.Readable := by
  intro operand hoperand
  cases operand with
  | column source => exact h.names.columns source (.operand hoperand)
  | expression sql => exact h.expressions sql hoperand

/-- The columns of a join are written into statements like those of conditions. -/
theorem Scope.readable_iff {scope : Scope} :
    scope.Readable ↔ Text.isIdentifier scope.table ∧ Text.isIdentifier scope.primaryKey ∧
      (∀ join ∈ scope.joins,
        (Text.isIdentifier join.table ∧ Text.isIdentifier join.qualifier) ∧
          (Operand.column join.left).Readable ∧ (Operand.column join.right).Readable) ∧
      ∀ operand ∈ operandsOf scope.conditions, operand.Readable := by
  constructor
  · intro h
    exact ⟨h.names.table, h.names.primaryKey, fun join hmem => ⟨h.names.joins join hmem,
      h.names.columns _ (.left hmem), h.names.columns _ (.right hmem)⟩, h.operand⟩
  · rintro ⟨htable, hkey, hjoins, hoperands⟩
    refine ⟨⟨htable, hkey, fun join hmem => (hjoins join hmem).1, ?_⟩,
      fun sql hmem => hoperands _ hmem⟩
    intro column hcolumn
    cases hcolumn with
    | left hmem => exact (hjoins _ hmem).2.1
    | right hmem => exact (hjoins _ hmem).2.2
    | operand hmem => exact hoperands _ hmem

instance (scope : Scope) : Decidable scope.Readable :=
  decidable_of_iff _ Scope.readable_iff.symm

section

variable (database : Database)

/-- Conditions are rendered one by one, so there are texts where there are conditions. -/
theorem renderings_ne_nil {conditions : List Condition} (hne : conditions ≠ []) (number : Nat) :
    renderings database number conditions ≠ [] := by
  cases conditions with
  | nil => exact absurd rfl hne
  | cons first rest => exact List.cons_ne_nil _ _

/-- Connected conditions have the texts of the conditions with the connective between them. -/
theorem renderFrom_connect (connective : String) (number : Nat) (conditions : List Condition) :
    Piece.renderFrom database.placeholder number
        (connect connective (conditionPieces database conditions)) =
      connective.intercalate (renderings database number conditions) := by
  induction conditions generalizing number with
  | nil => rfl
  | cons first rest ih =>
    cases rest with
    | nil => simp [connect, conditionPieces, renderings, Condition.textFrom]
    | cons second rest =>
      have hne := renderings_ne_nil database (List.cons_ne_nil second rest)
        (number + (Piece.values (first.pieces database)).length)
      have hconnect : connect connective (conditionPieces database (first :: second :: rest)) =
          first.pieces database ++ .text connective ::
            connect connective (conditionPieces database (second :: rest)) :=
        connect_cons_cons connective _ _ _
      have hrenderings : renderings database number (first :: second :: rest) =
          first.textFrom database number :: renderings database
            (number + (Piece.values (first.pieces database)).length) (second :: rest) := rfl
      rw [hconnect, Piece.renderFrom_append, Piece.renderFrom, ih, hrenderings,
        String.intercalate_cons_of_ne_nil hne, String.append_assoc]
      rfl

/-! ## Names and operands -/

theorem plain_of_isIdentifier {name : String} (h : Text.isIdentifier name) : Plain name := by
  have hrest : ∀ c, Text.isIdentifierRest c = true → IsPlain c :=
    fun c => isPlain_of_kind (by decide)
  intro c hmem
  unfold Text.isIdentifier at h
  cases hname : name.toList with
  | nil =>
    rw [hname] at hmem
    exact absurd hmem List.not_mem_nil
  | cons start rest =>
    rw [hname] at h hmem
    obtain ⟨hstart, hall⟩ := Bool.and_eq_true_iff.mp h
    rcases List.mem_cons.mp hmem with rfl | hmem
    · exact hrest c (Text.isIdentifierRest_of_start hstart)
    · exact hrest c (List.all_eq_true.mp hall c hmem)

theorem Column.plain_text {column : Column} (hqualifier : Text.isIdentifier column.qualifier)
    (hname : Text.isIdentifier column.name) : Plain column.text := by
  have hdot : Plain "." := by decide
  have hqualified := (plain_of_isIdentifier hqualifier).append hdot
  exact hqualified.append (plain_of_isIdentifier hname)

/-- A readable operand opens and closes its brackets and has no connective outside of them. -/
theorem Operand.Readable.calm {operand : Operand} (h : operand.Readable) : Calm operand.text := by
  cases operand with
  | column source => exact (Column.plain_text h.1 h.2).calm
  | expression sql =>
    have hopen : calmAfter? 0 "(".toList = some 1 := rfl
    have hsql : calmAfter? 1 sql.toList = some 1 := h.calm_inside 0
    have hclose : calmAfter? 1 ")".toList = some 0 := rfl
    exact calmAfter?_text (calmAfter?_text hopen hsql) hclose

/-- The text of an operand begins with something that is neither a blank nor a closing bracket. -/
theorem Operand.Readable.headed {operand : Operand} (h : operand.Readable) :
    Headed operand.text := by
  cases operand with
  | column source =>
    refine ⟨source.qualifier.toList, '.', source.name.toList, ?_, fun hblank => ?_, by decide⟩
    · rw [text, Column.text, String.toList_append, String.toList_append, List.append_assoc]
      rfl
    · exact (plain_of_isIdentifier h.1 _ hblank).1 rfl
  | expression sql =>
    refine ⟨[], '(', sql.toList ++ [')'], ?_, List.not_mem_nil, by decide⟩
    rw [text, String.toList_append, String.toList_append, List.append_assoc]
    rfl

theorem Database.plain_placeholder (number : Nat) : Plain (database.placeholder number) := by
  have hmark : Plain "?" := by decide
  have hdollar : Plain "$" := by decide
  have hdigits : Plain (toString number) := by
    intro c hc
    exact isPlain_of_kind (by decide) (isDigit_of_mem_toString hc)
  cases database with
  | sqlite => exact hmark
  | postgres => exact hdollar.append hdigits
  | duckdb => exact hmark

/-- A placeholder is no connective, so it is calm behind a blank. -/
theorem Database.calm_blank_placeholder (number : Nat) :
    Calm (" " ++ database.placeholder number) := by
  have hstart : startsNoConnective (database.placeholder number).toList = true := by
    have hmark : startsNoConnective "?".toList = true := by decide
    cases database with
    | sqlite => exact hmark
    | postgres =>
      rw [Piece.toList_placeholder_postgres]
      rfl
    | duckdb => exact hmark
  have hblank : ¬(' ' = ')' ∧ 0 = 0 ∨ ' ' = ' ' ∧ 0 = 0 ∧
      startsNoConnective (database.placeholder number).toList = false) := by
    rw [hstart]
    decide
  rw [Calm, String.toList_append]
  show calmAfter? 0 (' ' :: (database.placeholder number).toList) = some 0
  rw [calmAfter?, if_neg hblank]
  exact (database.plain_placeholder number).calm

/-! ## Joined tables -/

/-- The text of a join may stand inside of brackets. -/
theorem Join.nested_text {join : Join} (htable : Plain join.table)
    (hqualifier : Plain join.qualifier) (hleft : Plain join.left.text)
    (hright : Plain join.right.text) : Nested join.text := by
  have hjoin : Nested "LEFT JOIN " := by decide
  have has : Nested " AS " := by decide
  have hon : Nested " ON " := by decide
  have hequal : Nested " = " := by decide
  have htarget : Nested (if join.qualifier = join.table then join.table
      else join.table ++ " AS " ++ join.qualifier) := by
    split
    · exact htable.nested
    · exact (htable.nested.append has).append hqualifier.nested
  exact ((((hjoin.append htarget).append hon).append hleft.nested).append hequal).append
    hright.nested

/-- The selection of a readable scope may stand inside of brackets. -/
theorem Scope.Readable.nested_selection {scope : Scope} (h : scope.Readable) (number : Nat) :
    Nested (Piece.renderFrom database.placeholder number
      (selection "SELECT" scope.table scope.primaryKey scope.joins)) := by
  have hselect : Nested ("SELECT" ++ " ") := by decide
  have hfrom : Nested " FROM " := by decide
  have hblank : Nested " " := by decide
  have htable : Plain scope.table := plain_of_isIdentifier h.names.table
  have hkey : Plain (Column.text ⟨scope.table, scope.primaryKey⟩) :=
    Column.plain_text h.names.table h.names.primaryKey
  -- the names in a join are identifiers, those of the columns that it compares included
  have hjoin : ∀ join ∈ scope.joins, Nested join.text := by
    intro join hmem
    obtain ⟨hjoined, hqualifier⟩ := h.names.joins join hmem
    obtain ⟨hleft, hleftName⟩ := h.names.columns _ (.left hmem)
    obtain ⟨hright, hrightName⟩ := h.names.columns _ (.right hmem)
    exact Join.nested_text (plain_of_isIdentifier hjoined) (plain_of_isIdentifier hqualifier)
      (Column.plain_text hleft hleftName) (Column.plain_text hright hrightName)
  have hjoins : Nested (Piece.renderFrom database.placeholder number
      (scope.joins.map fun join => .text (" " ++ join.text))) := by
    generalize scope.joins = joins at hjoin
    induction joins with
    | nil => exact rfl
    | cons join rest ih =>
      obtain ⟨hfirst, hrest⟩ := List.forall_mem_cons.mp hjoin
      exact (hblank.append hfirst).append (ih hrest)
  exact (((hselect.append hkey.nested).append hfrom).append htable.nested).append hjoins

/-! ## Conditions -/

/-- What is between parentheses stands between connectives if it is nested. -/
theorem Nested.connectable {text : String} (h : Nested text) :
    Connectable ("(" ++ text ++ ")") := by
  have hopen : calmAfter? 0 "(".toList = some 1 := rfl
  have hclose : calmAfter? 1 ")".toList = some 0 := rfl
  refine ⟨calmAfter?_text (calmAfter?_text hopen (h.calm_inside 0)) hclose,
    [], '(', text.toList ++ [')'], ?_, List.not_mem_nil, by decide⟩
  rw [String.toList_append, String.toList_append, List.append_assoc]
  rfl

/-- The impossible condition can be connected with others. -/
theorem connectable_never : Connectable "1=0" :=
  ⟨by decide, ['1'], '=', ['0'], rfl, by decide, by decide⟩

/-- Two texts between an opening, a middle and a closing text can be connected with others if the
brackets around them match. -/
theorem Connectable.around {opening first middle second closing : String} {outer inner : Nat}
    (hopening : Headed opening) (hopen : calmAfter? 0 opening.toList = some (outer + 1))
    (hfirst : Nested first) (hmiddle : calmAfter? (outer + 1) middle.toList = some (inner + 1))
    (hsecond : Nested second) (hclose : calmAfter? (inner + 1) closing.toList = some 0) :
    Connectable (opening ++ first ++ middle ++ second ++ closing) := by
  have hbefore := calmAfter?_text (calmAfter?_text hopen (hfirst.calm_inside outer)) hmiddle
  exact ⟨calmAfter?_text (calmAfter?_text hbefore (hsecond.calm_inside inner)) hclose,
    (((hopening.append first).append middle).append second).append closing⟩

/-- Every database searches in a condition that can stand between connectives. -/
theorem Database.connectable_contains {expression : String} (h : Nested expression)
    (needle : Json) (number : Nat) :
    Connectable (Piece.renderFrom database.placeholder number
      (database.contains expression (.param needle))) := by
  have hplaceholder : Nested (database.placeholder number) :=
    (database.plain_placeholder number).nested
  -- all databases open two brackets and close both; they differ in what stands first
  cases database with
  | sqlite =>
    have hheaded : Headed "instr(lower(" :=
      ⟨"instr".toList, '(', "lower(".toList, rfl, by decide, by decide⟩
    have hopening : calmAfter? 0 "instr(lower(".toList = some (1 + 1) := by decide
    have hmiddle : calmAfter? (1 + 1) "), lower(".toList = some (1 + 1) := by decide
    have hclosing : calmAfter? (1 + 1) ")) > 0".toList = some 0 := by decide
    have hwhole := Connectable.around hheaded hopening h hmiddle hplaceholder hclosing
    simpa only [contains, Piece.renderFrom, String.append_assoc, String.append_empty] using hwhole
  | postgres =>
    have hheaded : Headed "position(lower(" :=
      ⟨"position".toList, '(', "lower(".toList, rfl, by decide, by decide⟩
    have hopening : calmAfter? 0 "position(lower(".toList = some (1 + 1) := by decide
    have hmiddle : calmAfter? (1 + 1) ") IN lower(".toList = some (1 + 1) := by decide
    have hclosing : calmAfter? (1 + 1) ")) > 0".toList = some 0 := by decide
    have hwhole := Connectable.around hheaded hopening hplaceholder hmiddle h hclosing
    simpa only [contains, Piece.renderFrom, String.append_assoc, String.append_empty] using hwhole
  | duckdb =>
    have hheaded : Headed "contains(lower(" :=
      ⟨"contains".toList, '(', "lower(".toList, rfl, by decide, by decide⟩
    have hopening : calmAfter? 0 "contains(lower(".toList = some (1 + 1) := by decide
    have hmiddle : calmAfter? (1 + 1) "), lower(".toList = some (1 + 1) := by decide
    have hclosing : calmAfter? (1 + 1) "))".toList = some 0 := by decide
    have hwhole := Connectable.around hheaded hopening h hmiddle hplaceholder hclosing
    simpa only [contains, Piece.renderFrom, String.append_assoc, String.append_empty] using hwhole

/-- A disjunction stands in parentheses. -/
theorem textFrom_anyOf {members : List Condition} (hne : members ≠ []) (number : Nat) :
    (Condition.anyOf members).textFrom database number =
      "(" ++ " OR ".intercalate (renderings database number members) ++ ")" := by
  cases members with
  | nil => exact absurd rfl hne
  | cons first rest =>
    have hpieces : (Condition.anyOf (first :: rest)).pieces database =
        .text "(" :: (connect " OR " (conditionPieces database (first :: rest)) ++
          [.text ")"]) := by
      rw [Condition.pieces, conditionPieces]
    rw [Condition.textFrom, hpieces, Piece.renderFrom, Piece.renderFrom_append,
      renderFrom_connect, ← String.append_assoc]
    rfl

theorem whereClause_conditionPieces {conditions : List Condition} (hne : conditions ≠ []) :
    whereClause (conditionPieces database conditions) =
      .text " WHERE " :: connect " AND " (conditionPieces database conditions) := by
  cases conditions with
  | nil => exact absurd rfl hne
  | cons first rest => rfl

/-- The text of a clause, if there is one. -/
theorem renderFrom_whereClause {conditions : List Condition} (hne : conditions ≠ [])
    (number : Nat) :
    Piece.renderFrom database.placeholder number
        (whereClause (conditionPieces database conditions)) =
      " WHERE " ++ " AND ".intercalate (renderings database number conditions) := by
  rw [whereClause_conditionPieces database hne, Piece.renderFrom, renderFrom_connect]

mutual

/-- A readable condition can be connected with others: its own connectives are inside of brackets.
The three statements go through conditions and scopes together. -/
theorem Condition.connectable : (condition : Condition) →
    (∀ operand ∈ condition.operands, operand.Readable) →
      (∀ part ∈ condition.inner, part.Readable) →
        ∀ number, Connectable (condition.textFrom database number)
  | .compares lhs comparison value, hoperands, _ => by
    intro number
    rw [Condition.operands] at hoperands
    have hlhs := hoperands lhs (List.mem_singleton_self lhs)
    have hsign : Calm (" " ++ comparison.sign) := by cases comparison <;> decide
    have hplaceholder := database.calm_blank_placeholder number
    have htext : (Condition.compares lhs comparison value).textFrom database number =
        lhs.text ++ (" " ++ comparison.sign) ++ (" " ++ database.placeholder number) := by
      simp only [Condition.textFrom, Condition.pieces, Piece.renderFrom, String.append_assoc,
        String.append_empty]
    rw [htext]
    exact ⟨calmAfter?_text (calmAfter?_text hlhs.calm hsign) hplaceholder,
      (hlhs.headed.append _).append _⟩
  | .isNull lhs, hoperands, _ => by
    intro number
    rw [Condition.operands] at hoperands
    have hlhs := hoperands lhs (List.mem_singleton_self lhs)
    have hnull : Calm " IS NULL" := by decide
    have htext : (Condition.isNull lhs).textFrom database number = lhs.text ++ " IS NULL" := by
      simp only [Condition.textFrom, Condition.pieces, Piece.renderFrom, String.append_empty]
    rw [htext]
    exact ⟨calmAfter?_text hlhs.calm hnull, hlhs.headed.append _⟩
  | .contains lhs needle, hoperands, _ => by
    intro number
    rw [Condition.operands] at hoperands
    have hlhs := hoperands lhs (List.mem_singleton_self lhs)
    rw [Condition.textFrom, Condition.pieces]
    exact database.connectable_contains hlhs.calm.nested needle number
  | .impossible, _, _ => by
    intro number
    rw [Condition.textFrom, Condition.pieces]
    exact connectable_never
  | .isAmong lhs scope negated, hoperands, hinner => by
    -- the connectives of the subquery are one level down
    intro number
    rw [Condition.operands] at hoperands
    rw [Condition.inner] at hinner
    have hlhs := hoperands lhs (List.mem_singleton_self lhs)
    have hopen : calmAfter? 0 (if negated then " NOT IN (" else " IN (").toList = some 1 := by
      cases negated <;> decide
    have hsubquery := scope.nested_subquery hinner number
    have hclose : calmAfter? 1 ")".toList = some 0 := rfl
    have htext : (Condition.isAmong lhs scope negated).textFrom database number =
        lhs.text ++ (if negated then " NOT IN (" else " IN (") ++
          Piece.renderFrom database.placeholder number (scope.subquery database) ++ ")" := by
      simp only [Condition.textFrom, Condition.pieces, Piece.renderFrom,
        Piece.renderFrom_append, String.append_assoc, String.append_empty]
    rw [htext]
    exact ⟨calmAfter?_text (calmAfter?_text (calmAfter?_text hlhs.calm hopen)
        (hsubquery.calm_inside 0)) hclose,
      ((hlhs.headed.append _).append _).append _⟩
  | .anyOf [], _, _ => by
    intro number
    rw [Condition.textFrom, Condition.pieces]
    exact connectable_never
  | .anyOf (first :: rest), hoperands, hinner => by
    -- so are those between the members, which are put in parentheses
    intro number
    rw [Condition.operands] at hoperands
    rw [Condition.inner] at hinner
    have hmembers := connectable_renderings (first :: rest) hoperands hinner number
    have hconnective : " OR " ∈ connectives := by decide
    have hnested := nested_intercalate hconnective fun text h => (hmembers text h).calm.nested
    rw [textFrom_anyOf database (List.cons_ne_nil _ _)]
    exact hnested.connectable

theorem Scope.nested_subquery : (scope : Scope) →
    (∀ part ∈ scope :: scope.inner, part.Readable) →
      ∀ number, Nested (Piece.renderFrom database.placeholder number (scope.subquery database))
  | ⟨model, table, primaryKey, joins, conditions, limit, offset⟩, h => by
    intro number
    rw [Scope.inner] at h
    obtain ⟨hself, hinner⟩ := List.forall_mem_cons.mp h
    have hconditions := connectable_renderings conditions hself.operand hinner number
    have hselection := hself.nested_selection database number
    have hwhere : Nested " WHERE " := by decide
    have hconnective : " AND " ∈ connectives := by decide
    have hnested := nested_intercalate hconnective fun text h => (hconditions text h).calm.nested
    rw [Scope.subquery, Piece.renderFrom_append, values_selection]
    by_cases hne : conditions = []
    · -- no clause
      rw [hne]
      exact hselection.append rfl
    · rw [renderFrom_whereClause database hne]
      exact hselection.append (hwhere.append hnested)

theorem connectable_renderings : (conditions : List Condition) →
    (∀ operand ∈ operandsOf conditions, operand.Readable) →
      (∀ part ∈ innerOf conditions, part.Readable) →
        ∀ number, ∀ text ∈ renderings database number conditions, Connectable text
  | [], _, _ => fun _ _ h => absurd h List.not_mem_nil
  | condition :: rest, hoperands, hinner => by
    intro number
    rw [operandsOf] at hoperands
    rw [innerOf] at hinner
    obtain ⟨hcondition, hrest⟩ := List.forall_mem_append.mp hoperands
    obtain ⟨hinside, hbehind⟩ := List.forall_mem_append.mp hinner
    rw [renderings]
    exact List.forall_mem_cons.mpr ⟨condition.connectable hcondition hinside number,
      connectable_renderings rest hrest hbehind _⟩

end

/-! ## Where conditions stand in statements -/

mutual

/-- A scope inside a condition stands in it as a subquery. -/
theorem Condition.infix_pieces : (condition : Condition) →
    ∀ part ∈ condition.inner, part.subquery database <:+: condition.pieces database
  | .compares _ _ _ => by simp [Condition.inner]
  | .isNull _ => by simp [Condition.inner]
  | .contains _ _ => by simp [Condition.inner]
  | .impossible => by simp [Condition.inner]
  | .isAmong _ scope _ => by
    intro part hpart
    rw [Condition.inner] at hpart
    rw [Condition.pieces]
    refine List.infix_cons (List.infix_append_of_infix_left ?_)
    -- the part is the scope itself or deeper inside
    rcases List.mem_cons.mp hpart with rfl | hpart
    · exact List.infix_rfl
    · exact scope.infix_subquery part hpart
  | .anyOf [] => by simp [Condition.inner, innerOf]
  | .anyOf (first :: rest) => by
    intro part hpart
    rw [Condition.inner] at hpart
    rw [Condition.pieces]
    exact List.infix_cons
      (List.infix_append_of_infix_left (infix_connect (first :: rest) " OR " part hpart))

/-- The subquery of every inner scope stands somewhere in the text of the whole. -/
theorem Scope.infix_subquery : (scope : Scope) →
    ∀ part ∈ scope.inner, part.subquery database <:+: scope.subquery database
  | ⟨_, _, _, _, conditions, _, _⟩ => by
    intro part hpart
    rw [Scope.inner] at hpart
    have hne : conditions ≠ [] := by
      rintro rfl
      exact absurd hpart List.not_mem_nil
    rw [Scope.subquery, whereClause_conditionPieces database hne]
    exact List.infix_append_of_infix_right
      (List.infix_cons (infix_connect conditions " AND " part hpart))

theorem infix_connect : (conditions : List Condition) → ∀ connective : String,
    ∀ part ∈ innerOf conditions,
      part.subquery database <:+: connect connective (conditionPieces database conditions)
  | [], _ => fun _ h => absurd h List.not_mem_nil
  | [condition], connective => by
    intro part hpart
    rw [innerOf, innerOf, List.append_nil] at hpart
    have hsingle : connect connective (conditionPieces database [condition]) =
        condition.pieces database := List.intercalate_singleton
    rw [hsingle]
    exact condition.infix_pieces part hpart
  | first :: second :: rest, connective => by
    intro part hpart
    rw [innerOf] at hpart
    rw [conditionPieces, conditionPieces, connect_cons_cons]
    rcases List.mem_append.mp hpart with hpart | hpart
    · exact List.infix_append_of_infix_left (first.infix_pieces part hpart)
    · exact List.infix_append_of_infix_right
        (List.infix_cons (infix_connect (second :: rest) connective part hpart))

end

namespace Scope

/-- The clause of a scope, and that of each scope inside it, stands in its statement. -/
theorem infix_statement {scope part : Scope} (hpart : part ∈ scope :: scope.inner)
    (hne : part.conditions ≠ []) :
    whereClause (conditionPieces database part.conditions) <:+: scope.statement database := by
  have hself : whereClause (conditionPieces database scope.conditions) <:+:
      scope.statement database :=
    List.infix_append_of_infix_left (List.infix_append_of_infix_right List.infix_rfl)
  rcases List.mem_cons.mp hpart with rfl | hinner
  · exact hself
  · have hclause : whereClause (conditionPieces database part.conditions) <:+:
        part.subquery database := by
      cases part
      rw [subquery]
      exact List.infix_append_of_infix_right List.infix_rfl
    rw [inner_eq] at hinner
    have hscope : scope.conditions ≠ [] := by
      intro hnil
      rw [hnil] at hinner
      exact absurd hinner List.not_mem_nil
    refine List.IsInfix.trans ?_ hself
    rw [whereClause_conditionPieces database hscope]
    exact hclause.trans
      (List.infix_cons (infix_connect database scope.conditions " AND " part hinner))

/-- The text of the conditions of a scope, and that of each scope inside it, is emitted behind a
`WHERE`. -/
theorem exists_conditionText {scope part : Scope} (hpart : part ∈ scope :: scope.inner)
    (hne : part.conditions ≠ []) :
    ∃ before number after, scope.sql database =
      before ++ (" WHERE " ++ part.conditionText database number) ++ after := by
  obtain ⟨before, after, hstatement⟩ := infix_statement database hpart hne
  have hwhere := renderFrom_whereClause database hne (1 + (Piece.values before).length)
  rw [sql, ← hstatement, Piece.render, Piece.renderFrom_append, Piece.renderFrom_append, hwhere,
    ← renderFrom_connect]
  exact ⟨_, _, _, rfl⟩

variable {scope : Scope} {condition : Condition}

/-- A condition that a scope holds is about operands of the scope. -/
theorem Holds.operands_subset (h : scope.Holds condition) :
    condition.operands ⊆ operandsOf scope.conditions := by
  induction h with
  | required hmem => exact fun operand h => mem_operandsOf.mpr ⟨_, hmem, h⟩
  | alternative _ hmem ih =>
    rw [Condition.operands] at ih
    exact fun operand h => ih (mem_operandsOf.mpr ⟨_, hmem, h⟩)

theorem Holds.inner_subset (h : scope.Holds condition) : condition.inner ⊆ scope.inner := by
  rw [inner_eq]
  induction h with
  | required hmem => exact fun part h => mem_innerOf.mpr ⟨_, hmem, h⟩
  | alternative _ hmem ih =>
    rw [Condition.inner] at ih
    exact fun part h => ih (mem_innerOf.mpr ⟨_, hmem, h⟩)

end Scope

/-- The members of a disjunction can be told apart by the `OR` between them. -/
theorem splitOutside_members {members : List Condition} (hne : members ≠ [])
    (hoperands : ∀ operand ∈ operandsOf members, operand.Readable)
    (hinner : ∀ part ∈ innerOf members, part.Readable) (number : Nat) :
    ∃ body, (Condition.anyOf members).textFrom database number = "(" ++ body ++ ")" ∧
      splitOutside " OR " body = renderings database number members := by
  have hmembers := connectable_renderings database members hoperands hinner number
  have hconnective : " OR " ∈ connectives := by decide
  exact ⟨_, textFrom_anyOf database hne number,
    splitOutside_intercalate hconnective (renderings_ne_nil database hne number)
      fun text h => (hmembers text h).calm⟩

end

/-- Connectives outside of parentheses are between the conditions of a scope and nowhere else: an
`AND` between two that it requires, and an `OR` between two members of a disjunction, inside the
parentheses of that disjunction. -/
structure Scope.Separated (database : Database) (number : Nat) (scope : Scope) : Prop where
  nested : Nested (scope.conditionText database number)
  required : scope.conditions ≠ [] →
    splitOutside " AND " (scope.conditionText database number) =
      renderings database number scope.conditions
  noAlternative : ¬OccursOutside " OR " (scope.conditionText database number)
  alternatives : ∀ members, scope.Holds (.anyOf members) → members ≠ [] →
    ∃ body, (Condition.anyOf members).textFrom database number = "(" ++ body ++ ")" ∧
      splitOutside " OR " body = renderings database number members

/-- The conditions of a scope come apart at the connectives of the outer level and nowhere else. -/
theorem Scope.separated {scope : Scope} (h : ∀ part ∈ scope :: scope.inner, part.Readable)
    (database : Database) (number : Nat) : scope.Separated database number := by
  have hconnective : " AND " ∈ connectives := by decide
  obtain ⟨hself, hinner⟩ := List.forall_mem_cons.mp h
  have hparts : ∀ text ∈ renderings database number scope.conditions, Connectable text := by
    rw [inner_eq] at hinner
    exact connectable_renderings database scope.conditions hself.operand hinner number
  have htext := renderFrom_connect database " AND " number scope.conditions
  constructor
  case nested =>
    rw [conditionText, htext]
    exact nested_intercalate hconnective fun text hmem => (hparts text hmem).calm.nested
  case required =>
    intro hne
    rw [conditionText, htext]
    exact splitOutside_intercalate hconnective (renderings_ne_nil database hne number)
      fun text hmem => (hparts text hmem).calm
  case noAlternative =>
    rw [conditionText, htext]
    exact not_occursOutside_or hparts
  case alternatives =>
    -- what is inside a member is inside the scope
    intro members hholds hne
    have hoperands := hholds.operands_subset
    have hinside := hholds.inner_subset
    rw [Condition.operands] at hoperands
    rw [Condition.inner] at hinside
    exact splitOutside_members database hne
      (fun operand hmem => hself.operand operand (hoperands hmem))
      (fun part hmem => hinner part (hinside hmem)) number

/-- If names are identifiers and the expressions are nested, then in the statement for a scope the
conditions of the scope and of every scope inside it stand behind a `WHERE`, and connectives outside
of parentheses are between conditions and nowhere else. -/
theorem Scope.separated_of_readable {scope : Scope}
    (h : ∀ part ∈ scope :: scope.inner, part.Readable) (database : Database) :
    ∀ part ∈ scope :: scope.inner,
      (part.conditions ≠ [] → ∃ before number after, scope.sql database =
        before ++ (" WHERE " ++ part.conditionText database number) ++ after) ∧
      ∀ number, part.Separated database number := by
  intro part hpart
  refine ⟨exists_conditionText database hpart, separated ?_ database⟩
  rcases List.mem_cons.mp hpart with rfl | hmem
  · exact h
  · have hinner := scope.inner_subset part hmem
    exact List.forall_mem_cons.mpr
      ⟨h part hpart, fun inside hinside => h inside (List.mem_cons_of_mem _ (hinner hinside))⟩

/-! ### Offers in some shops -/

/-- The cities that are left out below. No city is one of them. -/
def excludedCities : Scope where
  model := "City"
  table := "cities"
  primaryKey := "id"
  joins := []
  conditions := [.isNull (.expression "size OR area"), .anyOf [], .impossible]
  limit := none
  offset := none

/-- Offers whose total mentions a text, in shops that are in no city, or among the first ones and
outside the excluded cities. Expressions have connectives in them, and so has the text. -/
def disputedOffers : Scope where
  model := "Offer"
  table := "offers"
  primaryKey := "id"
  joins := [⟨"shops", "shop", ⟨"shop", "id"⟩, ⟨"offers", "shop_id"⟩⟩]
  conditions := [
    .contains (.expression "price OR (amount AND 1)") (.string ") OR (1=1"),
    .anyOf [.isNull (.column ⟨"shop", "city_id"⟩),
      .anyOf [.compares (.column ⟨"shop", "id"⟩) .atMost (.number (.integer 3)),
        .isAmong (.column ⟨"shop", "city_id"⟩) excludedCities true]]]
  limit := none
  offset := some 9

/-- The conditions of the offers and of the cities can be told apart, whatever words there are in
their expressions. -/
theorem Scope.separated_of_readable_disputedOffers :
    (∀ part ∈ disputedOffers :: disputedOffers.inner, part.Readable) ∧
    splitOutside " AND " (disputedOffers.conditionText .postgres 1) =
      ["position(lower($1) IN lower((price OR (amount AND 1)))) > 0",
        "(shop.city_id IS NULL OR (shop.id <= $2 OR shop.city_id NOT IN " ++
          "(SELECT cities.id FROM cities WHERE (size OR area) IS NULL AND 1=0 AND 1=0)))"] ∧
    splitOutside " AND " (excludedCities.conditionText .postgres 3) =
      ["(size OR area) IS NULL", "1=0", "1=0"] ∧
    ∀ part ∈ disputedOffers :: disputedOffers.inner, ∀ number,
      part.Separated .postgres number := by
  have hreadable : ∀ part ∈ disputedOffers :: disputedOffers.inner, part.Readable := by decide
  have h := separated_of_readable hreadable .postgres
  have hcities : excludedCities ∈ disputedOffers :: disputedOffers.inner :=
    List.mem_cons_of_mem _ (List.mem_cons_self ..)
  have hoffers := (h disputedOffers (List.mem_cons_self ..)).2 1
  refine ⟨hreadable, ?_, ?_, fun part hpart => (h part hpart).2⟩
  · rw [hoffers.required (List.cons_ne_nil _ _)]
    decide +kernel
  · rw [((h excludedCities hcities).2 3).required (List.cons_ne_nil _ _)]
    rfl

end Sift
