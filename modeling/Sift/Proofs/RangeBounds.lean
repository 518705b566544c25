import Mathlib.Algebra.Order.Ring.Int
import Mathlib.Data.Set.List
import Mathlib.Data.String.Basic
import Mathlib.Order.Compare
import Sift.Operator.Conditions

/-!
# The bounds of a range

One walk through the values keeps the least and the greatest of those seen so far. It fails as soon
as a value does not compare with them, so a list has bounds if it is not empty and its values are
all numbers or all texts. What is kept is a member, and nothing in the list lies beyond it as far as
the comparison can be chained.

Whole numbers and texts compare in a linear order. Their bounds are the least and the greatest value,
whatever the order in which they are given.
-/

namespace Sift

/-! ## Comparing by machine words -/

namespace Number

/-- The comparison by words is exact on whole numbers: whichever words a pair of them is compared as,
the outcome is that of the numbers. -/
theorem order_integer (m n : Int) : (integer m).order (integer n) = compare m n := by
  unfold order
  by_cases hm : m < Nat.pow 2 63
  · have hmSigned : signed? (integer m) = some m := if_pos hm
    by_cases hn : n < Nat.pow 2 63
    · -- both have a sign
      have hnSigned : signed? (integer n) = some n := if_pos hn
      rw [hmSigned, hnSigned]
    · -- the second one is too large for a sign: either both do without, or the first is negative
      have hnSigned : signed? (integer n) = none := if_neg hn
      have hnUnsigned : unsigned? (integer n) = some n := if_pos (by omega)
      have hless : compare m n = .lt := compare_lt_iff_lt.mpr (by omega)
      rw [hmSigned, hnSigned, hnUnsigned]
      cases hmUnsigned : unsigned? (integer m) with
      | none => exact hless.symm
      | some k =>
        obtain ⟨-, heq⟩ := Option.ite_none_right_eq_some.mp hmUnsigned
        rw [Option.some.inj heq]
  · have hmSigned : signed? (integer m) = none := if_neg hm
    have hmUnsigned : unsigned? (integer m) = some m := if_pos (by omega)
    rw [hmSigned, hmUnsigned]
    by_cases hn : n < Nat.pow 2 63
    · -- the first one is too large for a sign
      have hnSigned : signed? (integer n) = some n := if_pos hn
      have hgreater : compare m n = .gt := compare_gt_iff_gt.mpr (by omega)
      rw [hnSigned]
      cases hnUnsigned : unsigned? (integer n) with
      | none => exact hgreater.symm
      | some k =>
        obtain ⟨-, heq⟩ := Option.ite_none_right_eq_some.mp hnUnsigned
        rw [Option.some.inj heq]
    · -- neither has a sign
      have hnSigned : signed? (integer n) = none := if_neg hn
      have hnUnsigned : unsigned? (integer n) = some n := if_pos (by omega)
      rw [hnSigned, hnUnsigned]

end Number

namespace Bounds

/-! ## Keeping the best value -/

section Best

variable {α : Type} {better : α → α → Prop} [DecidableRel better] {first : α} {rest : List α}

/-- The value that is left when each value replaces the one before it if it is better. -/
def best (better : α → α → Prop) [DecidableRel better] (first : α) (rest : List α) : α :=
  rest.foldl (fun kept value => if better value kept then value else kept) first

theorem best_cons (value : α) : best better first (value :: rest) =
    best better (if better value first then value else first) rest :=
  rfl

/-- What is kept is one of the values. -/
theorem best_mem : best better first rest ∈ first :: rest := by
  induction rest generalizing first with
  | nil => exact List.mem_cons_self
  | cons value rest ih =>
    rw [best_cons]
    split
    · exact List.mem_cons_of_mem first ih
    · rcases List.mem_cons.mp (@ih first) with heq | hmem
      · rw [heq]
        exact List.mem_cons_self
      · exact List.mem_cons_of_mem first (List.mem_cons_of_mem value hmem)

/-- A value that no other one is better than is kept from the start. -/
theorem best_eq_first (h : ∀ value ∈ rest, ¬better value first) : best better first rest = first := by
  induction rest with
  | nil => rfl
  | cons value rest ih =>
    rw [best_cons, if_neg (h value List.mem_cons_self)]
    exact ih fun other hother => h other (List.mem_cons_of_mem value hother)

/-- What is not better than the value kept now is not better than any value kept later. -/
theorem not_better_best_of_first [IsTrans α better] {value : α} (h : ¬better value first) :
    ¬better value (best better first rest) := by
  induction rest generalizing first with
  | nil => exact h
  | cons next rest ih =>
    rw [best_cons]
    refine ih ?_
    split
    · next hbetter => exact fun hvalue => h (IsTrans.trans value next first hvalue hbetter)
    · exact h

/-- Nothing is better than what is kept in the end, if being better is transitive and never holds of
a value and itself. -/
theorem not_better_best (better : α → α → Prop) [DecidableRel better] [IsTrans α better]
    [Std.Irrefl better] : ∀ value ∈ first :: rest, ¬better value (best better first rest) := by
  induction rest generalizing first with
  | nil =>
    intro value hvalue
    rw [List.mem_singleton.mp hvalue]
    exact irrefl_of better first
  | cons next rest ih =>
    intro value hvalue
    rw [best_cons]
    by_cases hbetter : better next first
    · -- the next value replaces the first one, which cannot be better than anything kept later
      rw [if_pos hbetter]
      rcases List.mem_cons.mp hvalue with rfl | hmem
      · refine not_better_best_of_first fun h => irrefl_of better value ?_
        exact IsTrans.trans value next value h hbetter
      · exact ih value hmem
    · -- the first value stays, and the next one is not better than it
      rw [if_neg hbetter]
      rcases List.mem_cons.mp hvalue with rfl | hmem
      · exact ih value List.mem_cons_self
      · rcases List.mem_cons.mp hmem with rfl | hmem
        · exact not_better_best_of_first hbetter
        · exact ih value (List.mem_cons_of_mem first hmem)

end Best

/-! ## Values that compare -/

section Compared

variable {α : Type} {order : α → α → Ordering} {toJson : α → Json}

/-- The bounds of values that compare by an order are the best ones below and above. -/
theorem extremes?_map (h : ∀ a b, order? (toJson a) (toJson b) = some (order a b))
    (first : α) (rest : List α) : extremes? ((first :: rest).map toJson) =
      some (toJson (best (order · · = .lt) first rest), toJson (best (order · · = .gt) first rest)) := by
  have hwiden : ∀ low high value, widen (toJson low, toJson high) (toJson value) =
      some (toJson (if order value low = .lt then value else low),
        toJson (if order value high = .gt then value else high)) := by
    intro low high value
    simp only [widen, h, Option.bind_eq_bind, Option.bind_some, apply_ite toJson]
  have hwalk : ∀ rest low high, (rest.map toJson).foldlM widen (toJson low, toJson high) =
      some (toJson (best (order · · = .lt) low rest), toJson (best (order · · = .gt) high rest)) := by
    intro rest
    induction rest with
    | nil => exact fun low high => rfl
    | cons value rest ih =>
      intro low high
      rw [List.map_cons, List.foldlM_cons, hwiden, Option.bind_eq_bind, Option.bind_some, ih]
      rfl
  rw [List.map_cons, extremes?, hwalk, h]
  rfl

end Compared

/-- Values of one kind that compare: two numbers, or two texts. -/
inductive SameKind : Json → Json → Prop
  | numbers (m n : Number) : SameKind (.number m) (.number n)
  | texts (s t : String) : SameKind (.string s) (.string t)

/-- Kinds are told through a third value. -/
theorem SameKind.trans {a b c : Json} (h : SameKind a b) (hnext : SameKind b c) : SameKind a c := by
  cases h with
  | numbers m n => cases hnext with | numbers _ k => exact .numbers m k
  | texts s t => cases hnext with | texts _ u => exact .texts s u

/-- Only values of one kind compare. -/
theorem sameKind_of_order? {a b : Json} {result : Ordering} (h : order? a b = some result) :
    SameKind a b := by
  unfold order? at h
  split at h
  · exact .numbers ..
  · exact .texts ..
  · cases h

/-- A step of the walk fails unless the value is of the kind of the bounds, and it keeps that kind.
-/
theorem sameKind_of_widen {first low high value : Json} {bounds : Json × Json}
    (hlow : SameKind low first) (hhigh : SameKind high first)
    (h : widen (low, high) value = some bounds) :
    SameKind value first ∧ SameKind bounds.1 first ∧ SameKind bounds.2 first := by
  simp only [widen, Option.bind_eq_bind, Option.bind_eq_some_iff, Option.some.injEq] at h
  obtain ⟨below, hbelow, above, -, rfl⟩ := h
  have hvalue : SameKind value first := (sameKind_of_order? hbelow).trans hlow
  refine ⟨hvalue, ?_, ?_⟩
  · show SameKind (if below = .lt then value else low) first
    split
    · exact hvalue
    · exact hlow
  · show SameKind (if above = .gt then value else high) first
    split
    · exact hvalue
    · exact hhigh

/-- So a walk that ends has met values of one kind only. -/
theorem sameKind_of_walk {first : Json} {rest : List Json} {bounds result : Json × Json}
    (hlow : SameKind bounds.1 first) (hhigh : SameKind bounds.2 first)
    (h : rest.foldlM widen bounds = some result) : ∀ value ∈ rest, SameKind value first := by
  induction rest generalizing bounds with
  | nil => exact fun value hvalue => absurd hvalue List.not_mem_nil
  | cons next rest ih =>
    rw [List.foldlM_cons, Option.bind_eq_bind, Option.bind_eq_some_iff] at h
    obtain ⟨wider, hwider, h⟩ := h
    obtain ⟨hnext, hlow, hhigh⟩ := sameKind_of_widen hlow hhigh hwider
    exact List.forall_mem_cons.mpr ⟨hnext, ih hlow hhigh h⟩

/-- A list with bounds has values of one kind; the first one must compare with itself. -/
theorem sameKind_of_extremes? {first : Json} {rest : List Json} {bounds : Json × Json}
    (h : extremes? (first :: rest) = some bounds) : ∀ value ∈ first :: rest, SameKind value first := by
  rw [extremes?, Option.filter_eq_some_iff] at h
  obtain ⟨hwalk, hfirst⟩ := h
  obtain ⟨result, hresult⟩ := Option.isSome_iff_exists.mp hfirst
  have hself : SameKind first first := sameKind_of_order? hresult
  exact List.forall_mem_cons.mpr ⟨hself, sameKind_of_walk hself hself hwalk⟩

/-- A list has bounds if it is not empty and its values are all numbers or all texts. -/
theorem exists_extremes?_iff {values : List Json} : (∃ bounds, extremes? values = some bounds) ↔
    values ≠ [] ∧ ((∀ value ∈ values, ∃ n, .number n = value) ∨
      ∀ value ∈ values, ∃ text, .string text = value) := by
  constructor
  · -- all values are of the kind of the first one
    rintro ⟨bounds, h⟩
    cases values with
    | nil => cases h
    | cons first rest =>
      have hkind := sameKind_of_extremes? h
      refine ⟨List.cons_ne_nil first rest, ?_⟩
      cases hkind first List.mem_cons_self with
      | numbers m _ =>
        refine Or.inl fun value hvalue => ?_
        cases hkind value hvalue with
        | numbers n _ => exact ⟨n, rfl⟩
      | texts s _ =>
        refine Or.inr fun value hvalue => ?_
        cases hkind value hvalue with
        | texts t _ => exact ⟨t, rfl⟩
  · -- values of one kind compare, so the walk goes through
    rintro ⟨hne, hnumbers | htexts⟩
    · obtain ⟨numbers, rfl⟩ : values ∈ Set.range (List.map Json.number) := by
        rwa [Set.range_list_map]
      cases numbers with
      | nil => exact absurd rfl hne
      | cons first rest => exact ⟨_, extremes?_map (fun _ _ => rfl) first rest⟩
    · obtain ⟨texts, rfl⟩ : values ∈ Set.range (List.map Json.string) := by
        rwa [Set.range_list_map]
      cases texts with
      | nil => exact absurd rfl hne
      | cons first rest => exact ⟨_, extremes?_map (fun _ _ => rfl) first rest⟩

/-! ## Values in a linear order -/

/-- One value is not above another: both are whole numbers, or both are texts. -/
def AtMost : Json → Json → Prop
  | .number (.integer a), .number (.integer b) => a ≤ b
  | .string a, .string b => a ≤ b
  | _, _ => False

/-- The least and the greatest of values. -/
structure AreEnds (values : List Json) (low high : Json) : Prop where
  low_mem : low ∈ values
  high_mem : high ∈ values
  low_le : ∀ value ∈ values, AtMost low value
  le_high : ∀ value ∈ values, AtMost value high

/-- Values that are not above each other are equal. -/
theorem AtMost.antisymm {a b : Json} (h : AtMost a b) (hback : AtMost b a) : a = b := by
  unfold AtMost at h
  split at h
  · rw [le_antisymm h hback]
  · rw [le_antisymm h hback]
  · exact h.elim

/-- The ends of values do not depend on the order in which they are given. -/
theorem AreEnds.unique {values other : List Json} {low high low' high' : Json}
    (h : AreEnds values low high) (hother : AreEnds other low' high') (hperm : other.Perm values) :
    low' = low ∧ high' = high := by
  constructor
  · exact (hother.low_le low (hperm.mem_iff.mpr h.low_mem)).antisymm
      (h.low_le low' (hperm.mem_iff.mp hother.low_mem))
  · exact (h.le_high high' (hperm.mem_iff.mp hother.high_mem)).antisymm
      (hother.le_high high (hperm.mem_iff.mpr h.high_mem))

/-- In a linear order the bounds that are found are the ends: what is kept on either side is a
member, and nothing lies beyond it. -/
theorem exists_areEnds_map {α : Type} [LinearOrder α] {toJson : α → Json}
    (horder : ∀ a b, order? (toJson a) (toJson b) = some (cmp a b))
    (hle : ∀ a b, AtMost (toJson a) (toJson b) ↔ a ≤ b) {values : List Json} (hne : values ≠ [])
    (hvalues : ∀ value ∈ values, ∃ a, toJson a = value) :
    ∃ low high, extremes? values = some (low, high) ∧ AreEnds values low high := by
  obtain ⟨elements, rfl⟩ : values ∈ Set.range (List.map toJson) := by
    rwa [Set.range_list_map]
  cases elements with
  | nil => exact absurd rfl hne
  | cons first rest =>
    have hbelow : IsTrans α (cmp · · = .lt) := ⟨fun a b c hab hbc => by
      rw [cmp_eq_lt_iff] at hab hbc ⊢
      exact hab.trans hbc⟩
    have habove : IsTrans α (cmp · · = .gt) := ⟨fun a b c hab hbc => by
      rw [cmp_eq_gt_iff] at hab hbc ⊢
      exact hbc.trans hab⟩
    have hbelowSelf : Std.Irrefl fun a b : α => cmp a b = .lt :=
      ⟨fun a h => lt_irrefl a ((cmp_eq_lt_iff a a).mp h)⟩
    have haboveSelf : Std.Irrefl fun a b : α => cmp a b = .gt :=
      ⟨fun a h => lt_irrefl a ((cmp_eq_gt_iff a a).mp h)⟩
    -- what is kept on a side is a member, and nothing is beyond it
    refine ⟨_, _, extremes?_map horder first rest, List.mem_map_of_mem best_mem,
      List.mem_map_of_mem best_mem, ?_, ?_⟩
    · intro value hvalue
      obtain ⟨a, ha, rfl⟩ := List.mem_map.mp hvalue
      rw [hle, ← not_lt, ← cmp_eq_lt_iff]
      exact not_better_best (cmp · · = .lt) a ha
    · intro value hvalue
      obtain ⟨a, ha, rfl⟩ := List.mem_map.mp hvalue
      rw [hle, ← not_lt, ← cmp_eq_gt_iff]
      exact not_better_best (cmp · · = .gt) a ha

/-- The values are whole numbers only, or texts only. -/
def InOneOrder (values : List Json) : Prop :=
  (∀ value ∈ values, ∃ n, .number (.integer n) = value) ∨
    ∀ value ∈ values, ∃ text, .string text = value

theorem InOneOrder.perm {values other : List Json} (h : InOneOrder values)
    (hperm : other.Perm values) : InOneOrder other := by
  unfold InOneOrder at h ⊢
  simpa only [hperm.mem_iff] using h

/-- The bounds of whole numbers, or of texts, are their ends. -/
theorem InOneOrder.exists_areEnds {values : List Json} (h : InOneOrder values)
    (hne : values ≠ []) :
    ∃ low high, extremes? values = some (low, high) ∧ AreEnds values low high := by
  rcases h with h | h
  · have horder : ∀ a b : Int,
        order? (.number (.integer a)) (.number (.integer b)) = some (cmp a b) := by
      intro a b
      rw [order?, Number.order_integer, cmp_eq_compare]
    exact exists_areEnds_map horder (fun a b => Iff.rfl) hne h
  · have horder : ∀ a b : String, order? (.string a) (.string b) = some (cmp a b) :=
      fun a b => congrArg some (cmp_eq_compare a b).symm
    exact exists_areEnds_map horder (fun a b => Iff.rfl) hne h

/-- Every order of such values has the same two ends. -/
theorem InOneOrder.exists_ends {values : List Json} (h : InOneOrder values) (hne : values ≠ []) :
    ∃ low high, AreEnds values low high ∧
      ∀ other : List Json, other.Perm values → extremes? other = some (low, high) := by
  obtain ⟨low, high, -, hends⟩ := h.exists_areEnds hne
  refine ⟨low, high, hends, fun other hperm => ?_⟩
  have hother : other ≠ [] := fun hnil => hne (List.nil_perm.mp (hnil ▸ hperm))
  obtain ⟨low', high', hextremes, hends'⟩ := (h.perm hperm).exists_areEnds hother
  obtain ⟨rfl, rfl⟩ := hends.unique hends' hperm
  exact hextremes

/-! ## Bounds of a parameter -/

/-- A parameter has the bounds that are found in it. -/
theorem ofParam_eq_ok {param : Json} {bounds : Json × Json} :
    ofParam param = .ok bounds ↔ ofParam? param = some bounds := by
  unfold ofParam
  cases ofParam? param <;> simp

/-- A parameter without bounds is no range, and there is no other reason for a rejection. -/
theorem ofParam_eq_error {param : Json} {rejection : Rejection} :
    ofParam param = .error rejection ↔ ofParam? param = none ∧ rejection = .badParam .notRange := by
  unfold ofParam
  cases ofParam? param <;> simp [eq_comm]

/-- One of two names does not occur in an object. -/
def Lacks (members : Keyed Json) (names : String × String) : Prop :=
  members.lookup names.1 = none ∨ members.lookup names.2 = none

/-- The first pair of names that occurs gives the ends, whatever later pairs say. -/
theorem ends?_eq_some {members : Keyed Json} {before after : List (String × String)}
    {names : String × String} {low high : Json} (hnames : endNames = before ++ names :: after)
    (hbefore : ∀ earlier ∈ before, Lacks members earlier) (hlow : members.lookup names.1 = some low)
    (hhigh : members.lookup names.2 = some high) : ends? members = some [low, high] := by
  refine List.findSome?_eq_some_iff.mpr ⟨before, names, after, hnames, ?_, ?_⟩
  · simp [hlow, hhigh]
  · intro earlier hearlier
    rcases hbefore earlier hearlier with h | h <;> simp [h]

/-- An object without any pair of names has no ends. -/
theorem ends?_eq_none {members : Keyed Json} (h : ∀ names ∈ endNames, Lacks members names) :
    ends? members = none := by
  refine List.findSome?_eq_none_iff.mpr fun names hnames => ?_
  rcases h names hnames with h | h <;> simp [h]

/-- A range narrows as its bounds say, and by nothing else. -/
theorem narrow_within_congr {param other : Json} (h : ofParam other = ofParam param)
    (types : ColumnTypes) (target : Target) (invert : Bool) (scope : Scope) :
    target.narrow types ⟨.within, other, invert⟩ scope =
      target.narrow types ⟨.within, param, invert⟩ scope := by
  unfold Target.narrow Target.conditions Operator.conditions
  simp only [h]

/-- A list is rejected if it is empty or has values of different kinds, or of one that does not
compare. -/
theorem exists_error_iff {values : List Json} :
    (∃ rejection, ofParam (.array values) = .error rejection) ↔
      values = [] ∨ (¬∀ value ∈ values, ∃ n, .number n = value) ∧
        ¬∀ value ∈ values, ∃ text, .string text = value := by
  simp only [ofParam_eq_error, exists_and_left, exists_eq, and_true]
  show extremes? values = none ↔ _
  rw [Option.eq_none_iff_forall_ne_some, ← not_exists, exists_extremes?_iff, not_and_or, not_or,
    not_not]

/-- The bounds of a list are its least and its greatest value, and it has bounds unless it is empty
or of mixed kinds. An object gives the list of its two ends. -/
theorem ofParam_extremes :
    (∀ param rejection, ofParam param = .error rejection → rejection = .badParam .notRange) ∧
    (∀ values, (∃ rejection, ofParam (.array values) = .error rejection) ↔
      values = [] ∨ (¬∀ value ∈ values, ∃ n, .number n = value) ∧
        ¬∀ value ∈ values, ∃ text, .string text = value) ∧
    (∀ values, values ≠ [] → InOneOrder values → ∃ low high, AreEnds values low high ∧
      ∀ other, other.Perm values → ofParam (.array other) = .ok (low, high)) ∧
    (∀ members before names after low high,
      [("min", "max"), ("from", "to"), ("begin", "end")] = before ++ names :: after →
      (∀ earlier ∈ before, Lacks members earlier) → members.lookup names.1 = some low →
      members.lookup names.2 = some high →
      ofParam (.object members) = ofParam (.array [low, high])) ∧
    (∀ members, (∀ names ∈ [("min", "max"), ("from", "to"), ("begin", "end")],
      Lacks members names) → ofParam (.object members) = .error (.badParam .notRange)) ∧
    (∀ values other, InOneOrder values → other.Perm values →
      ∀ types target invert scope, Target.narrow types target ⟨.within, .array other, invert⟩ scope =
        Target.narrow types target ⟨.within, .array values, invert⟩ scope) := by
  refine ⟨fun param rejection h => (ofParam_eq_error.mp h).2, fun values => exists_error_iff,
    ?_, ?_, ?_, ?_⟩
  · -- the bounds of every order are the ends
    intro values hne hvalues
    obtain ⟨low, high, hends, hextremes⟩ := hvalues.exists_ends hne
    exact ⟨low, high, hends, fun other hperm => ofParam_eq_ok.mpr (hextremes other hperm)⟩
  · -- an object with ends
    intro members before names after low high hnames hbefore hlow hhigh
    have hends := ends?_eq_some hnames hbefore hlow hhigh
    simp only [ofParam, ofParam?, hends, Option.bind_some]
  · -- an object without ends
    intro members hlacks
    have hends : ends? members = none := ends?_eq_none hlacks
    simp only [ofParam, ofParam?, hends, Option.bind_none]
  · -- what a range narrows to depends on its bounds alone
    intro values other hvalues hperm types target invert scope
    refine narrow_within_congr ?_ types target invert scope
    by_cases hne : values = []
    · rw [hne] at hperm ⊢
      rw [hperm.eq_nil]
    · obtain ⟨low, high, -, hextremes⟩ := hvalues.exists_ends hne
      simp only [ofParam, ofParam?, hextremes other hperm, hextremes values (List.Perm.refl values)]

/-- A whole number as a value. -/
def whole (n : Int) : Json :=
  .number (.integer n)

theorem ofParam_extremes_words :
    (∃ low high,
      AreEnds [whole 18446744073709551615, whole (-3), whole 9223372036854775808] low high ∧
      ofParam (.array [whole 9223372036854775808, whole (-3), whole 18446744073709551615]) =
        .ok (low, high)) ∧
    (∃ rejection, ofParam (.array [whole 1, .string "1"]) = .error rejection) ∧
    ofParam (.object [("from", whole 1), ("max", whole 9), ("to", whole 0)]) =
      ofParam (.array [whole 1, whole 0]) ∧
    ofParam (.object [("from", whole 1), ("max", whole 9)]) = .error (.badParam .notRange) ∧
    ∀ types target invert scope,
      Target.narrow types target ⟨.within, .array [.string "b", .string "a"], invert⟩ scope =
        Target.narrow types target ⟨.within, .array [.string "a", .string "b"], invert⟩ scope := by
  obtain ⟨-, hfails, hbounds, hends, hnoEnds, hnarrow⟩ := ofParam_extremes
  refine ⟨?_, ?_, ?_, ?_, ?_⟩
  · generalize hvalues : [whole 18446744073709551615, whole (-3), whole 9223372036854775808] = values
    obtain ⟨low, high, hextremes, h⟩ := hbounds values (by simp [← hvalues])
      (Or.inl (by simp [← hvalues, whole]))
    have hreversed := h values.reverse (List.reverse_perm values)
    rw [← hvalues] at hreversed
    exact ⟨low, high, hextremes, hreversed⟩
  · exact (hfails _).mpr (Or.inr ⟨by simp [whole], by simp [whole]⟩)
  · exact hends _ [("min", "max")] ("from", "to") [("begin", "end")] _ _ rfl
      (by simp [Lacks, List.lookup_cons]) rfl rfl
  · exact hnoEnds _ (by simp [Lacks, List.lookup_cons])
  · exact hnarrow _ _ (Or.inr (by simp)) (List.Perm.swap ..)

end Bounds

end Sift
