import Sift.Proofs.AddedJoins
import Sift.Scope.Joined

/-!
# Scopes and the order in which they are conjoined

Every scope comes from the scope of all rows of some table by the operations on scopes, and none of
these puts the same join into a scope twice. So scopes can be conjoined in groups without anything
becoming different: the joins of all of them, each at its first place, the conditions one behind the
other, and of limits and offsets the last that is set, each for itself. The scope of all rows of the
same table changes nothing in front, and the scope of all rows of any table nothing behind.
-/

namespace Sift

namespace Scope

/-- The scope with a limit in place of its own. -/
def limited (scope : Scope) (limit : Nat) : Scope :=
  { scope with limit := some limit }

/-- The scope with an offset in place of its own. -/
def shifted (scope : Scope) (offset : Nat) : Scope :=
  { scope with offset := some offset }

/-- The scopes to which the operations on scopes lead. Conditions may be any, with any scopes inside
them. -/
inductive Built : Scope → Prop
  | all (table : Table) : Built (all table)
  | cleared {scope : Scope} (hscope : Built scope) : Built scope.cleared
  | narrow {scope : Scope} (hscope : Built scope) (conditions : List Condition) :
    Built (scope.narrow conditions)
  | among {scope other : Scope} (hscope : Built scope) (hother : Built other) :
    Built (scope.among other)
  | excluding {scope other : Scope} (hscope : Built scope) (hother : Built other) :
    Built (scope.excluding other)
  | withoutPage {scope : Scope} (hscope : Built scope) : Built scope.withoutPage
  | limited {scope : Scope} (hscope : Built scope) (limit : Nat) : Built (scope.limited limit)
  | shifted {scope : Scope} (hscope : Built scope) (offset : Nat) : Built (scope.shifted offset)
  | withJoin {scope : Scope} (hscope : Built scope) (join : Join) : Built (scope.withJoin join)
  | conjoin {scope other : Scope} (hscope : Built scope) (hother : Built other) :
    Built (scope.conjoin other)
  | conjoinVia {scope related : Scope} (hscope : Built scope) (join : Join)
      (hrelated : Built related) :
    Built (scope.conjoinVia join related)

/-- No operation puts a join into a scope twice. -/
theorem Built.nodup {scope : Scope} (h : scope.Built) : scope.joins.Nodup := by
  induction h with
  | all table => exact List.nodup_nil
  | cleared => exact List.nodup_nil
  | narrow _ _ ih | withoutPage _ ih | limited _ _ ih | shifted _ _ ih => exact ih
  | among _ _ ih | excluding _ _ ih => exact ih
  | withJoin _ join ih => exact nodup_addJoin ih join
  | conjoin _ _ ih => exact nodup_addJoins ih _
  | conjoinVia _ _ _ ih => exact nodup_addJoins ih _

/-! ## The joins of several scopes -/

theorem eraseDups_of_nodup {joins : List Join} (h : joins.Nodup) : joins.eraseDups = joins := by
  induction joins with
  | nil => exact List.eraseDups_nil
  | cons join rest ih =>
    obtain ⟨hnew, hrest⟩ := List.nodup_cons.mp h
    have hkept : rest.filter (fun other => !other == join) = rest := by
      refine List.filter_eq_self.mpr fun other hother => ?_
      simpa using fun heq : other = join => hnew (heq ▸ hother)
    rw [List.eraseDups_cons, hkept, ih hrest]

/-- Joins are added behind those that are there, each at its first place. -/
theorem addJoins_eq_eraseDups {joins : List Join} (h : joins.Nodup) (added : List Join) :
    addJoins joins added = (joins ++ added).eraseDups := by
  induction added generalizing joins with
  | nil => rw [addJoins_nil, List.append_nil, eraseDups_of_nodup h]
  | cons join rest ih =>
    rw [addJoins_cons, ih (nodup_addJoin h join)]
    by_cases hmem : join ∈ joins
    · have hdropped : (join :: rest).removeAll joins = rest.removeAll joins := by
        simp [List.cons_removeAll, hmem]
      rw [addJoins_of_mem hmem, List.eraseDups_append, List.eraseDups_append, hdropped]
    · rw [addJoin, if_neg hmem, ← List.append_cons]

theorem joins_conjoin_conjoin {first : Scope} (h : first.joins.Nodup) (second third : Scope) :
    ((first.conjoin second).conjoin third).joins =
      (first.joins ++ second.joins ++ third.joins).eraseDups := by
  have hfirst : (first.conjoin second).joins.Nodup := nodup_addJoins h second.joins
  rw [joins_conjoin, joins_conjoin, ← addJoins_append, addJoins_eq_eraseDups h, List.append_assoc]

/-- Conjoining scopes that were built by the operations is associative: either way the joins of all
three stay in their order, each once, the conditions stay in their order, and the last limit and the
last offset that are set hold. All rows are neutral on both sides. -/
theorem Built.conjoin_monoid {first : Scope} (h : first.Built) (second third : Scope) :
    (first.conjoin second).conjoin third = first.conjoin (second.conjoin third) ∧
    first.conjoin second.cleared = first ∧
    first.cleared.conjoin first = first ∧
    ((first.conjoin second).conjoin third).joins =
      (first.joins ++ second.joins ++ third.joins).eraseDups ∧
    ((first.conjoin second).conjoin third).conditions =
      first.conditions ++ second.conditions ++ third.conditions ∧
    ((first.conjoin second).conjoin third).limit =
      third.limit.or (second.limit.or first.limit) ∧
    ((first.conjoin second).conjoin third).offset =
      third.offset.or (second.offset.or first.offset) :=
  ⟨first.conjoin_assoc second third, first.conjoin_cleared second, cleared_conjoin h.nodup,
    joins_conjoin_conjoin h.nodup second third, rfl, rfl, rfl⟩

/-! ### Trips between places -/

/-- The scope of all trips. -/
def trips : Scope :=
  all (.declare "Trip" "trips" "id" [("start_id", .integer), ("goal_id", .integer)])

/-- The join of a place on a trip. -/
def placeOf (place : String) : Join :=
  ⟨"places", place, ⟨place, "id"⟩, ⟨"trips", place ++ "_id"⟩⟩

/-- The first five trips, behind two of them, with their starts and halts. -/
def haltingTrips : Scope :=
  (((trips.withJoin (placeOf "start")).withJoin (placeOf "halt")).limited 5).shifted 2

/-- The first seven trips, with their halts and goals. -/
def endingTrips : Scope :=
  ((trips.withJoin (placeOf "halt")).withJoin (placeOf "goal")).limited 7

/-- The trips behind three of them with a known goal, with their goals, homes and starts. -/
def returningTrips : Scope :=
  (((trips.withJoin (placeOf "goal")).withJoin (placeOf "home")).conjoin
    ((trips.withJoin (placeOf "start")).excluding
      (trips.narrow [.isNull (.column ⟨"trips", "goal_id"⟩)]))).shifted 3

/-- The halts, the goals and the starts that come again are not joined again; the limit is that of
the second scope and the offset that of the third one. -/
theorem Built.conjoin_monoid_trips :
    haltingTrips.Built ∧
    (haltingTrips.conjoin endingTrips).conjoin returningTrips =
      haltingTrips.conjoin (endingTrips.conjoin returningTrips) ∧
    haltingTrips.conjoin endingTrips.cleared = haltingTrips ∧
    haltingTrips.cleared.conjoin haltingTrips = haltingTrips ∧
    ((haltingTrips.conjoin endingTrips).conjoin returningTrips).joins =
      ["start", "halt", "goal", "home"].map placeOf ∧
    ((haltingTrips.conjoin endingTrips).conjoin returningTrips).conditions.length = 1 ∧
    ((haltingTrips.conjoin endingTrips).conjoin returningTrips).limit = some 7 ∧
    ((haltingTrips.conjoin endingTrips).conjoin returningTrips).offset = some 3 := by
  have hbuilt : haltingTrips.Built :=
    ((((Built.all _).withJoin (placeOf "start")).withJoin (placeOf "halt")).limited 5).shifted 2
  obtain ⟨hassoc, hright, hleft, hjoins, hconditions, hlimit, hoffset⟩ :=
    hbuilt.conjoin_monoid endingTrips returningTrips
  refine ⟨hbuilt, hassoc, hright, hleft, ?_, ?_, hlimit, hoffset⟩
  · rw [hjoins]
    decide
  · rw [hconditions]
    rfl

end Scope

end Sift
