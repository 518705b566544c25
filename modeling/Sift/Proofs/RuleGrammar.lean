import Sift.Proofs.Outcomes
import Sift.Rule.Reader

/-!
# The grammar of rules

Which values are lists of rules, and which rules they stand for, is a grammar: it says what each
element of an array may be, and how deep composites may go, but nothing about the order in which a
reader looks at things or about how it counts. A reader accepts a value exactly if the value stands
for rules by the grammar and these are no more than the limit, and then it gives these rules.

A reading step may start at any count, as a reader counts on from one list to the next.
-/

namespace Sift

/-! ## The number of rules -/

mutual

/-- The number of rules in a tree, composites and blank rules included. -/
def Rule.nodes : Rule → Nat
  | .blank => 1
  | .scope _ _ => 1
  | .leaf _ _ => 1
  | .composite rules _ => nodesOf rules + 1

def nodesOf : List Rule → Nat
  | [] => 0
  | rule :: rest => rule.nodes + nodesOf rest

end

/-- A rule counts at least itself. -/
theorem Rule.nodes_pos (rule : Rule) : 0 < rule.nodes := by
  cases rule <;> rw [nodes] <;> omega

/-! ## The grammar -/

/-- The conjunction that the members of a composite state; if none is stated or null is, all rules
must hold. -/
inductive StatesConjunction (members : Keyed Json) : Conjunction → Prop
  | absent (h : members.lookup "conjunction" = none) : StatesConjunction members .exclusive
  | null (h : members.lookup "conjunction" = some .null) : StatesConjunction members .exclusive
  | written {written : String} {conjunction : Conjunction}
      (h : members.lookup "conjunction" = some (.string written))
      (hwritten : Conjunction.ofText written = .ok conjunction) :
    StatesConjunction members conjunction

/-- The members name no scope that rules may call. -/
def RuleReader.CallsNone (reader : RuleReader) (members : Keyed Json) : Prop :=
  ∀ name, members.lookup "column" = some (.string name) → name ∉ reader.allowedScopes

mutual

/-- An element of an array stands for a rule, inside a number of composites. -/
inductive RuleReader.Denotes (reader : RuleReader) : (depth : Nat) → Json → Rule → Prop
  | null {depth : Nat} : Denotes reader depth .null .blank
  | empty {depth : Nat} : Denotes reader depth (.object []) .blank
  | scope {depth : Nat} {members : Keyed Json} {name : String}
      (hcolumn : members.lookup "column" = some (.string name))
      (hallowed : name ∈ reader.allowedScopes) :
    Denotes reader depth (.object members) (.scope name ((members.lookup "param").getD .null))
  | composite {depth : Nat} {members : Keyed Json} {value : Json} {rules : List Rule}
      {conjunction : Conjunction} (hnone : reader.CallsNone members)
      (hrules : members.lookup "rules" = some value) (hdepth : depth + 1 ≤ reader.limits.depth)
      (hconjunction : StatesConjunction members conjunction)
      (hnested : DenotesList reader (depth + 1) value rules) :
    Denotes reader depth (.object members) (.composite rules conjunction)
  | leaf {depth : Nat} {members : Keyed Json} {column name : String} {operator : Operator}
      {param : Json} (hnone : reader.CallsNone members) (hrules : members.lookup "rules" = none)
      (hcolumn : members.lookup "column" = some (.string column))
      (hname : members.lookup "operator" = some (.string name))
      (hoperator : Operator.ofName? name = some operator)
      (hparam : members.lookup "param" = some param) :
    Denotes reader depth (.object members)
      (.leaf column ⟨operator, param, isFlagSet (members.lookup "invert")⟩)

/-- A value is an array whose elements stand for rules. -/
inductive RuleReader.DenotesList (reader : RuleReader) :
    (depth : Nat) → Json → List Rule → Prop
  | array {depth : Nat} {elements : List Json} {rules : List Rule}
      (helements : DenotesEach reader depth elements rules) :
    DenotesList reader depth (.array elements) rules

/-- Elements stand for rules one by one. -/
inductive RuleReader.DenotesEach (reader : RuleReader) :
    (depth : Nat) → List Json → List Rule → Prop
  | nil {depth : Nat} : DenotesEach reader depth [] []
  | cons {depth : Nat} {element : Json} {elements : List Json} {rule : Rule} {rules : List Rule}
      (hfirst : Denotes reader depth element rule)
      (hrest : DenotesEach reader depth elements rules) :
    DenotesEach reader depth (element :: elements) (rule :: rules)

end

/-! ## Reading steps -/

namespace Reading

/-- What a reading step may come to from a count on: a result that counts what it holds and fits
into the limit, or a rejection of the rules, behind no more than one rule too many. -/
inductive Ends {α : Type} (limit : Nat) (denotes : α → Prop) (size : α → Nat) (count : Nat) :
    Except Rejection α × Nat → Prop
  | accepted {result : α} (hdenotes : denotes result)
      (hfits : size result = 0 ∨ count + size result ≤ limit) :
    Ends limit denotes size count (.ok result, count + size result)
  | rejected {fault : FilterFault} {next : Nat} (hle : count ≤ next)
      (hbound : next ≤ max count limit + 1) :
    Ends limit denotes size count (.error (.invalid fault), next)

/-- A reading step accepts exactly what denotes a result of a size that fits into the limit. -/
structure Reads {α : Type} (limit : Nat) (denotes : α → Prop) (size : α → Nat)
    (reading : Reading α) : Prop where
  ends : ∀ count, Ends limit denotes size count (reading.run.run count)
  accepts : ∀ count result, denotes result → (size result = 0 ∨ count + size result ≤ limit) →
    reading.run.run count = (.ok result, count + size result)

section

variable {α β : Type} {limit : Nat}

/-- Behind a success a reading goes on with the value and the count. -/
theorem run_bind_of_ok {first : Reading α} {next : α → Reading β} {count counted : Nat} {value : α}
    (h : first.run.run count = (.ok value, counted)) :
    (first >>= next).run.run count = (next value).run.run counted := by
  rw [ExceptT.run_bind, StateT.run_bind, h]
  rfl

/-- A rejection ends a reading, and the count stays where it was. -/
theorem run_bind_of_error {first : Reading α} {next : α → Reading β} {count counted : Nat}
    {rejection : Rejection} (h : first.run.run count = (.error rejection, counted)) :
    (first >>= next).run.run count = (.error rejection, counted) := by
  rw [ExceptT.run_bind, StateT.run_bind, h]
  rfl

/-- A step either rejects the rules, with the count moved up, or it accepts a result and counts it. -/
theorem Reads.run_cases {reading : Reading α} {denotes : α → Prop} {size : α → Nat}
    (h : Reads limit denotes size reading) (count : Nat) :
    (∃ fault counted, reading.run.run count = (.error (.invalid fault), counted) ∧
      count ≤ counted ∧ counted ≤ max count limit + 1) ∨
    ∃ result, reading.run.run count = (.ok result, count + size result) ∧ denotes result ∧
      (size result = 0 ∨ count + size result ≤ limit) := by
  have hends := h.ends count
  generalize reading.run.run count = answered at hends ⊢
  cases hends with
  | accepted hdenotes hfits => exact Or.inr ⟨_, rfl, hdenotes, hfits⟩
  | rejected hle hbound => exact Or.inl ⟨_, _, rfl, hle, hbound⟩

/-- What is lifted into reading counts nothing. -/
theorem Reads.lift {outcome : Except Rejection α} {denotes : α → Prop}
    (hok : ∀ result, outcome = .ok result ↔ denotes result)
    (herror : ∀ rejection, outcome = .error rejection → ∃ fault, rejection = .invalid fault) :
    Reads limit denotes (fun _ => 0) (liftM outcome) := by
  have hrun : ∀ count, (liftM outcome : Reading α).run.run count = (outcome, count) :=
    fun count => rfl
  refine ⟨fun count => ?_, fun count result hresult _ => ?_⟩
  · rw [hrun]
    cases houtcome : outcome with
    | error rejection =>
      obtain ⟨fault, rfl⟩ := herror rejection houtcome
      exact .rejected (Nat.le_refl count) (by omega)
    | ok result => exact .accepted ((hok result).mp houtcome) (.inl rfl)
  · rw [hrun, (hok result).mpr hresult]
    rfl

/-- Giving a value reads nothing and accepts that value alone. -/
theorem Reads.pure (value : α) :
    Reads limit (fun result => result = value) (fun _ => 0) (pure value) := by
  have hok : ∀ result, (Except.ok value : Except Rejection α) = .ok result ↔ result = value := by
    intro result
    rw [Except.ok.injEq, eq_comm]
  exact Reads.lift hok nofun

/-- A rejection reads nothing and accepts nothing. -/
theorem Reads.throw (fault : FilterFault) :
    Reads limit (fun _ : α => False) (fun _ => 0) (throw (.invalid fault)) where
  ends count := .rejected (Nat.le_refl count) (by omega)
  accepts _ _ hresult _ := hresult.elim

/-- Two steps one after the other accept what both accept, and count what both count. -/
theorem Reads.bind {first : Reading α} {next : α → Reading β} {denotes : α → Prop} {size : α → Nat}
    {denotesBoth : β → Prop} {sizeBoth : β → Nat} (hfirst : Reads limit denotes size first)
    (denotesNext : α → β → Prop) (sizeNext : α → β → Nat)
    (hnext : ∀ value, denotes value → Reads limit (denotesNext value) (sizeNext value) (next value))
    (hdenotes : ∀ result, denotesBoth result ↔ ∃ value, denotes value ∧ denotesNext value result)
    (hsize : ∀ value result, denotes value → denotesNext value result →
      sizeBoth result = size value + sizeNext value result) :
    Reads limit denotesBoth sizeBoth (first >>= next) where
  ends count := by
    obtain ⟨fault, counted, hrun, hle, hbound⟩ | ⟨value, hrun, hvalue, hfits⟩ :=
      hfirst.run_cases count
    · rw [run_bind_of_error hrun]
      exact .rejected hle hbound
    rw [run_bind_of_ok hrun]
    -- the second step starts where the first one has stopped, within the limit or at the start
    obtain ⟨fault, counted, hrunNext, hle, hbound⟩ | ⟨result, hrunNext, hresult, hfitsNext⟩ :=
      (hnext value hvalue).run_cases (count + size value)
    · rw [hrunNext]
      exact .rejected (by omega) (by omega)
    · have hboth := hsize value result hvalue hresult
      rw [hrunNext, Nat.add_assoc, ← hboth]
      exact .accepted ((hdenotes result).mpr ⟨value, hvalue, hresult⟩) (by omega)
  accepts count result hresult hfits := by
    obtain ⟨value, hvalue, hresult⟩ := (hdenotes result).mp hresult
    have hboth := hsize value result hvalue hresult
    have hrun := hfirst.accepts count value hvalue (by omega)
    have hrunNext := (hnext value hvalue).accepts (count + size value) result hresult (by omega)
    rw [run_bind_of_ok hrun, hrunNext, hboth, Nat.add_assoc]

/-- What a reading denotes may be told in other words, and its size may be counted in another way.
-/
theorem Reads.congr {reading : Reading α} {denotes other : α → Prop} {size otherSize : α → Nat}
    (h : Reads limit denotes size reading) (hdenotes : ∀ result, other result ↔ denotes result)
    (hsize : ∀ result, denotes result → otherSize result = size result) :
    Reads limit other otherSize reading where
  ends count := by
    obtain ⟨fault, counted, hrun, hle, hbound⟩ | ⟨result, hrun, hresult, hfits⟩ :=
      h.run_cases count
    · rw [hrun]
      exact .rejected hle hbound
    · rw [← hsize result hresult] at hfits
      rw [hrun, ← hsize result hresult]
      exact .accepted ((hdenotes result).mpr hresult) hfits
  accepts count result hresult hfits := by
    have hdenoted := (hdenotes result).mp hresult
    rw [hsize result hdenoted] at hfits ⊢
    exact h.accepts count result hdenoted hfits

/-- A step with a fresh count gives exactly the results that it denotes and that fit. -/
theorem Reads.result_eq_ok_iff {reading : Reading α} {denotes : α → Prop} {size : α → Nat}
    (h : Reads limit denotes size reading) {result : α} :
    reading.result = .ok result ↔ denotes result ∧ size result ≤ limit := by
  constructor
  · intro hresult
    obtain ⟨fault, counted, hrun, -, -⟩ | ⟨accepted, hrun, hdenotes, hfits⟩ := h.run_cases 0
    · rw [Reading.result, hrun] at hresult
      cases hresult
    · rw [Reading.result, hrun] at hresult
      cases hresult
      exact ⟨hdenotes, by omega⟩
  · rintro ⟨hdenotes, hfits⟩
    rw [Reading.result, h.accepts 0 result hdenotes (by omega)]

/-- A reading is rejected as invalid and in no other way. -/
theorem Reads.invalid_of_result {reading : Reading α} {denotes : α → Prop} {size : α → Nat}
    (h : Reads limit denotes size reading) {rejection : Rejection}
    (hresult : reading.result = .error rejection) : ∃ fault, rejection = .invalid fault := by
  obtain ⟨fault, counted, hrun, -, -⟩ | ⟨accepted, hrun, -, -⟩ := h.run_cases 0
  · rw [Reading.result, hrun] at hresult
    cases hresult
    exact ⟨fault, rfl⟩
  · rw [Reading.result, hrun] at hresult
    cases hresult

end

end Reading

/-! ## Reading the members of an object -/

/-- The members that an element gives a rule by; null gives none. -/
def elementMembers? : Json → Option (Keyed Json)
  | .null => some []
  | .object members => some members
  | _ => none

theorem ruleObjects?_array (elements : List Json) :
    ruleObjects? (.array elements) = elements.mapM elementMembers? := rfl

/-- A conjunction is read as the grammar states it: exclusive unless another one is named. -/
theorem conjunctionOf_eq_ok {members : Keyed Json} {conjunction : Conjunction} :
    conjunctionOf members = .ok conjunction ↔ StatesConjunction members conjunction := by
  unfold conjunctionOf
  constructor
  · intro h
    split at h
    case h_1 hnone =>
      cases h
      exact .absent hnone
    case h_2 hnull =>
      cases h
      exact .null hnull
    case h_3 hwritten => exact .written hwritten h
    case h_4 => cases h
  · intro h
    cases h with
    | absent hnone => rw [hnone]
    | null hnull => rw [hnull]
    | written hwritten hok => rw [hwritten]; exact hok

/-- A conjunction that is not known makes the filter invalid. -/
theorem invalid_of_conjunctionOf {members : Keyed Json} {rejection : Rejection}
    (h : conjunctionOf members = .error rejection) : ∃ fault, rejection = .invalid fault := by
  unfold conjunctionOf Conjunction.ofText at h
  split at h
  case h_3 =>
    split at h <;> cases h
    exact ⟨_, rfl⟩
  case h_4 =>
    cases h
    exact ⟨_, rfl⟩
  all_goals cases h

/-- The leaf that the members describe. -/
structure DescribesLeaf (members : Keyed Json) (column name : String) (operator : Operator)
    (param : Json) : Prop where
  column_eq : members.lookup "column" = some (.string column)
  name_eq : members.lookup "operator" = some (.string name)
  operator_eq : Operator.ofName? name = some operator
  param_eq : members.lookup "param" = some param

/-- A leaf is read as the grammar describes it, inverted if the flag says so. -/
theorem leafOf_eq_ok {members : Keyed Json} {rule : Rule} :
    leafOf members = .ok rule ↔ ∃ column name operator param,
      DescribesLeaf members column name operator param ∧
        rule = .leaf column ⟨operator, param, isFlagSet (members.lookup "invert")⟩ := by
  unfold leafOf
  constructor
  · intro h
    split at h
    case h_1 column name param hcolumn hname hparam =>
      cases hoperator : Operator.ofName? name with
      | none =>
        rw [hoperator] at h
        cases h
      | some operator =>
        rw [hoperator] at h
        cases h
        exact ⟨column, name, operator, param, ⟨hcolumn, hname, hoperator, hparam⟩, rfl⟩
    case h_2 => cases h
  · rintro ⟨column, name, operator, param, hleaf, rfl⟩
    rw [hleaf.column_eq, hleaf.name_eq, hleaf.param_eq]
    dsimp only
    rw [hleaf.operator_eq]

/-- An object that describes no leaf makes the filter invalid. -/
theorem invalid_of_leafOf {members : Keyed Json} {rejection : Rejection}
    (h : leafOf members = .error rejection) : ∃ fault, rejection = .invalid fault := by
  unfold leafOf at h
  split at h
  · split at h <;> cases h
    exact ⟨_, rfl⟩
  · cases h
    exact ⟨_, rfl⟩

namespace RuleReader

variable {reader : RuleReader} {members : Keyed Json} {depth : Nat} {rule : Rule}

/-- An object calls a named scope if its column names one that is allowed, whatever else it holds.
-/
theorem scopeName?_eq_some {name : String} :
    reader.scopeName? members = some name ↔
      members.lookup "column" = some (.string name) ∧ name ∈ reader.allowedScopes := by
  unfold scopeName?
  rw [Option.filter_eq_some_iff, Option.bind_eq_some_iff, List.contains_iff_mem]
  refine and_congr_left fun _ => ⟨?_, fun h => ⟨_, h, rfl⟩⟩
  rintro ⟨value, hvalue, hname⟩
  cases value <;> cases hname
  exact hvalue

/-- An object that calls no named scope is read as a leaf or a composite. -/
theorem scopeName?_eq_none : reader.scopeName? members = none ↔ reader.CallsNone members := by
  rw [Option.eq_none_iff_forall_ne_some]
  refine forall_congr' fun name => ?_
  rw [ne_eq, scopeName?_eq_some, not_and]

/-! ### What the members of an object stand for -/

/-- The empty object denotes the blank rule and no other. -/
theorem denotes_empty : reader.Denotes depth (.object []) rule ↔ rule = .blank := by
  constructor
  · intro h
    cases h with
    | empty => rfl
    | scope hcolumn => cases hcolumn
    | composite _ hrules => cases hrules
    | leaf _ _ hcolumn => cases hcolumn
  · rintro rfl
    exact .empty

/-- An element and the object that it stands for denote the same. -/
theorem denotes_of_elementMembers? {element : Json} (h : elementMembers? element = some members) :
    reader.Denotes depth element rule ↔ reader.Denotes depth (.object members) rule := by
  cases element <;> cases h
  · rw [denotes_empty]
    constructor
    · intro hnull
      cases hnull
      rfl
    · rintro rfl
      exact .null
  · rfl

/-- A call of a named scope takes its parameter, or null. -/
theorem denotes_scope {name : String} (h : reader.scopeName? members = some name) :
    reader.Denotes depth (.object members) rule ↔
      rule = .scope name ((members.lookup "param").getD .null) := by
  obtain ⟨hcolumn, hallowed⟩ := scopeName?_eq_some.mp h
  constructor
  · intro hrule
    cases hrule with
    | empty => cases hcolumn
    | scope hother =>
      cases hcolumn.symm.trans hother
      rfl
    | composite hnone => exact absurd hallowed (hnone name hcolumn)
    | leaf hnone => exact absurd hallowed (hnone name hcolumn)
  · rintro rfl
    exact .scope hcolumn hallowed

/-- Members with rules stand for a composite of what these stand for, one level deeper. -/
theorem denotes_composite {value : Json} (hnone : reader.CallsNone members)
    (h : members.lookup "rules" = some value) :
    reader.Denotes depth (.object members) rule ↔ depth + 1 ≤ reader.limits.depth ∧
      ∃ conjunction, StatesConjunction members conjunction ∧
        ∃ rules, reader.DenotesList (depth + 1) value rules ∧
          rule = .composite rules conjunction := by
  constructor
  · intro hrule
    cases hrule with
    | empty => cases h
    | scope hcolumn hallowed => exact absurd hallowed (hnone _ hcolumn)
    | composite _ hrules hdepth hconjunction hnested =>
      cases h.symm.trans hrules
      exact ⟨hdepth, _, hconjunction, _, hnested, rfl⟩
    | leaf _ hrules =>
      rw [h] at hrules
      cases hrules
  · rintro ⟨hdepth, conjunction, hconjunction, rules, hnested, rfl⟩
    exact .composite hnone h hdepth hconjunction hnested

/-- An object without nested rules denotes what it describes as a leaf. -/
theorem denotes_leaf (hne : members ≠ []) (hnone : reader.CallsNone members)
    (h : members.lookup "rules" = none) :
    reader.Denotes depth (.object members) rule ↔ leafOf members = .ok rule := by
  rw [leafOf_eq_ok]
  constructor
  · intro hrule
    cases hrule with
    | empty => exact absurd rfl hne
    | scope hcolumn hallowed => exact absurd hallowed (hnone _ hcolumn)
    | composite _ hrules =>
      rw [h] at hrules
      cases hrules
    | leaf _ _ hcolumn hname hoperator hparam =>
      exact ⟨_, _, _, _, ⟨hcolumn, hname, hoperator, hparam⟩, rfl⟩
  · rintro ⟨column, name, operator, param, hleaf, rfl⟩
    exact .leaf hnone h hleaf.column_eq hleaf.name_eq hleaf.operator_eq hleaf.param_eq

/-! ## Readers -/

open Reading (Reads)

/-- Counting a rule takes one from the limit. -/
theorem reads_count (reader : RuleReader) :
    Reads reader.limits.rules (fun _ => True) (fun _ => 1) reader.count := by
  have hrun : ∀ count, reader.count.run.run count =
      if reader.limits.rules < count + 1 then
        (.error (.invalid (.tooManyRules reader.limits.rules)), count + 1)
      else (.ok (), count + 1) := by
    intro count
    have hstep : reader.count.run.run count =
        (if reader.limits.rules < count + 1 then
          throw (.invalid (.tooManyRules reader.limits.rules))
        else pure () : Reading Unit).run.run (count + 1) := rfl
    rw [hstep]
    split <;> rfl
  refine ⟨fun count => ?_, fun count result _ hfits => ?_⟩
  · rw [hrun]
    split
    · -- over the limit by one
      exact .rejected (by omega) (by omega)
    · exact .accepted trivial (.inr (by omega))
  · rw [hrun, if_neg (by omega)]

/-- What a nested reader has to do with the composites at a depth. -/
def ReadsNested (reader : RuleReader) (depth : Nat)
    (nested : Keyed Json → Json → Reading Rule) : Prop :=
  ∀ members value, Reads reader.limits.rules
    (fun rule => depth + 1 ≤ reader.limits.depth ∧
      ∃ conjunction, StatesConjunction members conjunction ∧
        ∃ rules, reader.DenotesList (depth + 1) value rules ∧ rule = .composite rules conjunction)
    (fun rule => rule.nodes - 1) (nested members value)

/-- One rule is read as the grammar says if the lists inside it are. The cases are those of the
reader: blank, named scope, composite, leaf. -/
theorem reads_rule {nested : Keyed Json → Json → Reading Rule}
    (hnested : reader.ReadsNested depth nested) (members : Keyed Json) :
    Reads reader.limits.rules (fun rule => reader.Denotes depth (.object members) rule) Rule.nodes
      (reader.rule nested members) := by
  rw [RuleReader.rule]
  -- the rule itself is counted first, and behind it what is nested in it
  refine reader.reads_count.bind (fun _ rule => reader.Denotes depth (.object members) rule)
    (fun _ rule => rule.nodes - 1) (fun _ _ => ?_) ?_ ?_
  · by_cases hempty : members = []
    · -- a blank rule
      subst hempty
      refine (Reads.pure Rule.blank).congr (fun rule => denotes_empty) ?_
      rintro rule rfl
      rfl
    have hfull : ¬members.isEmpty = true := by rwa [List.isEmpty_iff]
    rw [if_neg hfull]
    cases hscope : reader.scopeName? members with
    | some name =>
      -- a named scope, whatever else the object holds
      refine (Reads.pure _).congr (fun rule => denotes_scope hscope) ?_
      rintro rule rfl
      rfl
    | none =>
      have hnone := scopeName?_eq_none.mp hscope
      cases hrules : members.lookup "rules" with
      | some value =>
        -- a composite
        exact (hnested members value).congr (fun rule => denotes_composite hnone hrules)
          fun _ _ => rfl
      | none =>
        -- a leaf
        have hleaf : ∀ rule, reader.Denotes depth (.object members) rule ↔
            leafOf members = .ok rule := fun rule => denotes_leaf hempty hnone hrules
        have hlift : Reads reader.limits.rules (fun rule => leafOf members = .ok rule)
            (fun _ => 0) (liftM (leafOf members)) :=
          Reads.lift (fun _ => Iff.rfl) fun _ => invalid_of_leafOf
        refine hlift.congr hleaf fun rule hrule => ?_
        obtain ⟨column, name, operator, param, -, rfl⟩ := leafOf_eq_ok.mp hrule
        rfl
  · exact fun rule => ⟨fun hrule => ⟨(), trivial, hrule⟩, fun ⟨_, _, hrule⟩ => hrule⟩
  · intro _ rule _ _
    have hpos := rule.nodes_pos
    omega

/-- What denotes rules consists of objects, or of texts that stand for them. -/
theorem exists_objects_of_denotesEach {elements : List Json} {rules : List Rule}
    (h : reader.DenotesEach depth elements rules) :
    ∃ objects, elements.mapM elementMembers? = some objects := by
  induction elements generalizing rules with
  | nil => exact ⟨[], rfl⟩
  | cons element rest ih =>
    cases h with
    | cons hfirst hrest =>
      obtain ⟨others, hothers⟩ := ih hrest
      have hmembers : ∃ members, elementMembers? element = some members := by
        cases hfirst with
        | null => exact ⟨_, rfl⟩
        | empty | scope | composite | leaf => exact ⟨_, rfl⟩
      obtain ⟨members, hmembers⟩ := hmembers
      exact ⟨members :: others, by rw [List.mapM_cons, hmembers, hothers]; rfl⟩

/-- Reading objects one after the other gives what their elements stand for, and counts it all. -/
theorem reads_objects {nested : Keyed Json → Json → Reading Rule}
    (hnested : reader.ReadsNested depth nested) {elements : List Json} {objects : List (Keyed Json)}
    (h : elements.mapM elementMembers? = some objects) :
    Reads reader.limits.rules (fun rules => reader.DenotesEach depth elements rules) nodesOf
      (objects.mapM (reader.rule nested)) := by
  induction elements generalizing objects with
  | nil =>
    cases h
    refine (Reads.pure []).congr (fun rules => ?_) ?_
    · constructor
      · intro hnil
        cases hnil
        rfl
      · rintro rfl
        exact .nil
    · rintro rules rfl
      rfl
  | cons element rest ih =>
    rw [List.mapM_cons, Option.bind_eq_bind, Option.bind_eq_some_iff] at h
    obtain ⟨members, hmembers, h⟩ := h
    obtain ⟨others, hothers, h⟩ := Option.bind_eq_some_iff.mp h
    cases h
    rw [List.mapM_cons]
    refine (reader.reads_rule hnested members).bind
      (fun rule rules => ∃ tail, reader.DenotesEach depth rest tail ∧ rules = rule :: tail)
      (fun rule rules => nodesOf rules - rule.nodes) (fun rule _ => ?_) (fun rules => ?_) ?_
    · -- the other objects, and the rule in front of what they give
      refine (ih hothers).bind (fun tail rules => rules = rule :: tail) (fun _ _ => 0)
        (fun tail _ => Reads.pure (rule :: tail)) (fun rules => Iff.rfl) ?_
      rintro tail rules - rfl
      rw [nodesOf, Nat.add_sub_cancel_left, Nat.add_zero]
    · -- this is what the grammar says of a longer list
      constructor
      · intro hrules
        cases hrules with
        | @cons _ _ _ rule tail hfirst hrest =>
          exact ⟨rule, (denotes_of_elementMembers? hmembers).mp hfirst, tail, hrest, rfl⟩
      · rintro ⟨rule, hrule, tail, htail, rfl⟩
        exact .cons ((denotes_of_elementMembers? hmembers).mpr hrule) htail
    · rintro rule rules - ⟨tail, -, rfl⟩
      rw [nodesOf]
      omega

/-- A list is read as the grammar says, within the depth that is left and within the limit of rules.
-/
theorem reads_list {nested : Keyed Json → Json → Reading Rule}
    (hnested : reader.ReadsNested depth nested) (value : Json) :
    Reads reader.limits.rules (fun rules => reader.DenotesList depth value rules) nodesOf
      (reader.list nested value) := by
  rw [RuleReader.list]
  cases hobjects : ruleObjects? value with
  | none =>
    -- no list, or one with an element that stands for no object: the grammar has neither
    refine (Reads.throw .notRuleList).congr (fun rules => ⟨fun hrules => ?_, nofun⟩) nofun
    cases hrules with
    | array helements =>
      obtain ⟨objects, hsome⟩ := exists_objects_of_denotesEach helements
      rw [ruleObjects?_array, hsome] at hobjects
      cases hobjects
  | some objects =>
    cases value with
    | array elements =>
      rw [ruleObjects?_array] at hobjects
      refine (reader.reads_objects hnested hobjects).congr (fun rules => ?_) fun _ _ => rfl
      constructor
      · intro hrules
        cases hrules with
        | array helements => exact helements
      · exact fun helements => .array helements
    | null | bool | number | string | object => cases hobjects

/-- The levels that are left and the depth make up the limit, so the reader goes exactly as deep as
the grammar. -/
theorem readsNested_composite (reader : RuleReader) {levels depth : Nat}
    (h : levels + depth = reader.limits.depth) :
    reader.ReadsNested depth (reader.composite levels) := by
  induction levels generalizing depth with
  | zero =>
    -- no level is left, and the grammar ends at the same depth
    intro members value
    refine (Reads.throw (.tooDeep reader.limits.depth)).congr (fun rule => ?_) nofun
    exact ⟨fun hrule => absurd hrule.1 (by omega), nofun⟩
  | succ levels ih =>
    intro members value
    have hlist : Reads reader.limits.rules
        (fun rules => reader.DenotesList (depth + 1) value rules) nodesOf
        (reader.list (reader.composite levels) value) := reader.reads_list (ih (by omega)) value
    have hconjunction : Reads reader.limits.rules
        (fun conjunction => StatesConjunction members conjunction) (fun _ => 0)
        (liftM (conjunctionOf members)) :=
      Reads.lift (fun _ => conjunctionOf_eq_ok) fun _ => invalid_of_conjunctionOf
    rw [RuleReader.composite]
    refine hconjunction.bind
      (fun conjunction rule => ∃ rules, reader.DenotesList (depth + 1) value rules ∧
        rule = .composite rules conjunction)
      (fun _ rule => rule.nodes - 1) (fun conjunction _ => ?_) (fun rule => ?_) ?_
    · -- behind the conjunction, the list
      refine hlist.bind (fun rules rule => rule = .composite rules conjunction) (fun _ _ => 0)
        (fun rules _ => Reads.pure _) (fun rule => Iff.rfl) ?_
      rintro rules rule - rfl
      rw [Rule.nodes, Nat.add_sub_cancel, Nat.add_zero]
    · exact ⟨fun hrule => hrule.2, fun hrule => ⟨by omega, hrule⟩⟩
    · exact fun _ _ _ _ => (Nat.zero_add _).symm

/-- Reading a value accepts what the grammar denotes at depth zero, and counts the nodes of all
rules. -/
theorem reads_read (reader : RuleReader) (value : Json) :
    Reads reader.limits.rules (fun rules => reader.DenotesList 0 value rules) nodesOf
      (reader.read value) :=
  reader.reads_list (reader.readsNested_composite (Nat.add_zero reader.limits.depth)) value

/-- A text is read as the value that the decoder makes of it, if it is not too large. -/
theorem reads_readTextWith (reader : RuleReader) (decode : Json.Decoder) (text : String) :
    Reads reader.limits.rules
      (fun rules => text.utf8ByteSize ≤ reader.limits.bytes ∧
        ∃ value, decode text = some value ∧ reader.DenotesList 0 value rules)
      nodesOf (reader.readTextWith decode text) := by
  rw [RuleReader.readTextWith]
  by_cases hsize : reader.limits.bytes < text.utf8ByteSize
  · rw [if_pos hsize]
    refine (Reads.throw (.oversizedText reader.limits.bytes)).congr (fun rules => ?_) nofun
    exact ⟨fun hrules => absurd hrules.1 (by omega), nofun⟩
  · rw [if_neg hsize]
    cases hvalue : decode text with
    | none =>
      refine (Reads.throw .malformedText).congr (fun rules => ⟨?_, nofun⟩) nofun
      rintro ⟨-, value, hnone, -⟩
      cases hnone
    | some value =>
      refine (reader.reads_read value).congr (fun rules => ⟨?_, ?_⟩) fun _ _ => rfl
      · rintro ⟨-, other, hother, hrules⟩
        cases hother
        exact hrules
      · exact fun hrules => ⟨by omega, value, rfl, hrules⟩

/-- A value is accepted exactly if it stands for rules that are not too many, and then it gives
these rules; otherwise the rules are rejected as invalid. -/
theorem result_read (reader : RuleReader) (value : Json) :
    (∀ rules, (reader.read value).result = .ok rules ↔
      reader.DenotesList 0 value rules ∧ nodesOf rules ≤ reader.limits.rules) ∧
    ∀ rejection, (reader.read value).result = .error rejection →
      ∃ fault, rejection = .invalid fault :=
  ⟨fun _ => (reader.reads_read value).result_eq_ok_iff,
    fun _ => (reader.reads_read value).invalid_of_result⟩

/-! ### Four rules and one too many -/

/-- Reads at most four rules, with composites on one level, that may call one named scope. -/
def recentReader : RuleReader := ⟨["recent"], ⟨4, 1, 0⟩⟩

/-- A blank rule, a named scope with something called rules beside it, and a composite. -/
def recentElements : List Json :=
  [.null, .object [("column", .string "recent"), ("rules", .bool true)],
    .object [("conjunction", .string " :Inclusive"), ("rules", .array [.object []])]]

/-- The named scope comes first and what is beside it is not read; one more blank rule is one too
many. -/
theorem result_read_recent : ∃ rules,
    rules = [.blank, .scope "recent" .null, .composite [.blank] .inclusive] ∧
    (recentReader.read (.array recentElements)).result = .ok rules ∧
    recentReader.DenotesList 0 (.array recentElements) rules ∧
    nodesOf rules ≤ recentReader.limits.rules ∧
    ∃ fault, (recentReader.read (.array (.null :: recentElements))).result =
      .error (.invalid fault) := by
  have haccepted : (recentReader.read (.array recentElements)).result = .ok _ := rfl
  have hrejected : (recentReader.read (.array (.null :: recentElements))).result = .error _ := rfl
  obtain ⟨hdenotes, hfits⟩ := ((result_read recentReader _).1 _).mp haccepted
  obtain ⟨fault, hfault⟩ := (result_read recentReader _).2 _ hrejected
  exact ⟨_, rfl, haccepted, hdenotes, hfits, fault, hrejected.trans (congrArg _ hfault)⟩

end RuleReader

end Sift
