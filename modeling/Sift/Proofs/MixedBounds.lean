import Mathlib.Data.Set.Finite.Lemmas
import Sift.Proofs.NearestDoubles
import Sift.Proofs.RangeBounds

/-!
# The bounds of whole numbers and doubles together

Whole numbers compare exactly with each other, and as their nearest doubles with doubles. So a whole
number and a double may differ and yet compare as equal, and which of them is kept depends on which
comes first. That matters at an end of the list alone: a bound is wrong, or depends on the order,
exactly if at one side the outermost double is the nearest one of the outermost whole number and is
not equal to it.

The two sides mirror each other. The lemmas are stated for a side, and compare outwards.
-/

namespace Sift

namespace Number

/-- A whole number fits in 64 bits, with a sign or without. -/
def Fits : Number → Prop
  | integer n => -2 ^ 63 ≤ n ∧ n < 2 ^ 64
  | float _ => True

/-- The exact value of a number. -/
def exact : Number → ℚ
  | integer n => n
  | float x => x.exact

/-- The rank by which a number compares with a double is that of the double nearest to it. -/
theorem isNearestOrdinal (n : Number) : Binary64.IsNearestOrdinal n.ordinal n.exact := by
  cases n with
  | integer n => exact Binary64.isNearestOrdinal_ordinalOfInt n
  | float x => exact x.isNearestOrdinal_exact

/-- Ranks keep the order of numbers, and may make different ones equal. -/
theorem ordinal_le {a b : Number} (h : a.exact ≤ b.exact) : a.ordinal ≤ b.ordinal :=
  a.isNearestOrdinal.monotone b.isNearestOrdinal h

end Number

namespace Bounds

/-! ## Sides -/

/-- An end of a range. -/
inductive Side
  | low
  | high

namespace Side

variable {side : Side}

/-- The first number lies at least as far out as the second one. -/
def Le {α : Type} [LE α] (side : Side) (a b : α) : Prop :=
  match side with
  | low => a ≤ b
  | high => b ≤ a

/-- How a number compares with those that it replaces as a bound. -/
def outcome : Side → Ordering
  | low => .lt
  | high => .gt

/-- The first number replaces the second one as a bound. -/
def Beyond (side : Side) (a b : Number) : Prop :=
  a.order b = side.outcome

instance : DecidableRel side.Beyond :=
  fun a b => inferInstanceAs (Decidable (a.order b = side.outcome))

section Linear

variable {α : Type} [LinearOrder α] {a b c : α}

theorem le_self (a : α) : side.Le a a := by
  cases side <;> exact le_rfl

/-- Each side is an order: from the low side the usual one, from the high side its reverse. With
this and the next lemmas no proof opens it. -/
theorem Le.trans (h : side.Le a b) (hnext : side.Le b c) : side.Le a c := by
  cases side with
  | low => exact le_trans h hnext
  | high => exact le_trans hnext h

theorem Le.antisymm (h : side.Le a b) (hback : side.Le b a) : a = b := by
  cases side with
  | low => exact le_antisymm h hback
  | high => exact le_antisymm hback h

theorem le_total (side : Side) (a b : α) : side.Le a b ∨ side.Le b a := by
  cases side with
  | low => exact LinearOrder.le_total a b
  | high => exact LinearOrder.le_total b a

end Linear

theorem Le.cast {m n : Int} : side.Le (m : ℚ) (n : ℚ) ↔ side.Le m n := by
  cases side <;> exact Int.cast_le

theorem Le.ordinal {a b : Number} (h : side.Le a.exact b.exact) : side.Le a.ordinal b.ordinal := by
  cases side <;> exact Number.ordinal_le h

/-- Doubles are in order as their ranks are. -/
theorem Le.exact_float {x y : Binary64} : side.Le x.exact y.exact ↔ side.Le x.ordinal y.ordinal := by
  cases side <;> exact Binary64.exact_le_iff

/-! ## Numbers that do not replace a bound -/

/-- Whole numbers are compared exactly. -/
theorem not_beyond_integer {m n : Int} :
    ¬side.Beyond (.integer m) (.integer n) ↔ side.Le n m := by
  rw [Beyond, Number.order_integer]
  cases side with
  | low => exact (not_congr compare_lt_iff_lt).trans not_lt
  | high => exact (not_congr compare_gt_iff_gt).trans not_lt

/-- As soon as one of the two is a double, ranks are compared. -/
theorem not_beyond_float_left {x : Binary64} {a : Number} :
    ¬side.Beyond (.float x) a ↔ side.Le a.ordinal x.ordinal := by
  rw [Beyond, Number.order_float_left]
  cases side with
  | low => exact (not_congr compare_lt_iff_lt).trans not_lt
  | high => exact (not_congr compare_gt_iff_gt).trans not_lt

theorem not_beyond_float_right {x : Binary64} {a : Number} :
    ¬side.Beyond a (.float x) ↔ side.Le x.ordinal a.ordinal := by
  rw [Beyond, Number.order_float_right]
  cases side with
  | low => exact (not_congr compare_lt_iff_lt).trans not_lt
  | high => exact (not_congr compare_gt_iff_gt).trans not_lt

/-- What does not replace a bound does not lie further out as a double. -/
theorem le_ordinal_of_not_beyond {a b : Number} (h : ¬side.Beyond a b) :
    side.Le b.ordinal a.ordinal := by
  cases a with
  | float x => exact not_beyond_float_left.mp h
  | integer m =>
    cases b with
    | float y => exact not_beyond_float_right.mp h
    | integer n => exact Le.ordinal (Le.cast.mpr (not_beyond_integer.mp h))

/-- A number that is in order is never found beyond, whichever way the two are compared. -/
theorem not_beyond_of_le {a b : Number} (h : side.Le b.exact a.exact) : ¬side.Beyond a b := by
  cases a with
  | float x => exact not_beyond_float_left.mpr h.ordinal
  | integer m =>
    cases b with
    | float y => exact not_beyond_float_right.mpr h.ordinal
    | integer n => exact not_beyond_integer.mpr (Le.cast.mp h)

/-- What replaces a bound lies further out. -/
theorem not_le_of_beyond {a b : Number} (h : side.Beyond a b) : ¬side.Le b.exact a.exact :=
  fun hle => not_beyond_of_le hle h

/-- What is found beyond is in order: a rank that is smaller is that of a smaller number. -/
theorem le_of_beyond {a b : Number} (h : side.Beyond a b) : side.Le a.exact b.exact :=
  (le_total side a.exact b.exact).resolve_right (not_le_of_beyond h)

instance : Std.Irrefl side.Beyond :=
  ⟨fun a => not_beyond_of_le (le_self a.exact)⟩

instance : IsTrans Number side.Beyond where
  trans a b c hab hbc := by
    by_contra hac
    have hback := le_ordinal_of_not_beyond hac
    have habOrdinal := (le_of_beyond hab).ordinal
    have hbcOrdinal := (le_of_beyond hbc).ordinal
    -- all three are the same as doubles, which leaves whole numbers only
    cases a with
    | float x => exact not_beyond_float_left.mpr (hbcOrdinal.trans hback) hab
    | integer m =>
      cases c with
      | float z => exact not_beyond_float_right.mpr (hback.trans habOrdinal) hbc
      | integer n =>
        have hle : side.Le (Number.integer n).exact (Number.integer m).exact :=
          Le.cast.mpr (not_beyond_integer.mp hac)
        exact not_le_of_beyond hab ((le_of_beyond hbc).trans hle)

/-- The bound that is kept on a side. -/
def outermost (side : Side) (first : Number) (rest : List Number) : Number :=
  best side.Beyond first rest

/-- The outermost number is one of the numbers. -/
theorem outermost_mem (first : Number) (rest : List Number) :
    side.outermost first rest ∈ first :: rest :=
  best_mem

/-- No number is found beyond the outermost one. -/
theorem not_beyond_outermost (first : Number) (rest : List Number) :
    ∀ a ∈ first :: rest, ¬side.Beyond a (side.outermost first rest) :=
  not_better_best side.Beyond

/-! ## Whole numbers and doubles that are confused -/

/-- On a side of the numbers, the outermost double is the nearest one of the outermost whole number
without being equal to it. -/
structure Blurred (side : Side) (numbers : List Number) (n : Int) (x : Binary64) : Prop where
  integer_mem : .integer n ∈ numbers
  float_mem : .float x ∈ numbers
  integer_outermost : ∀ m, .integer m ∈ numbers → side.Le n m
  float_outermost : ∀ y, .float y ∈ numbers → side.Le x.exact y.exact
  nearest : x.IsNearest n
  ne : x.exact ≠ n

variable {numbers : List Number} {n : Int} {x : Binary64}

/-- A double is nearest to a whole number that fits exactly if it has the rank by which the number
is compared. -/
theorem isNearest_integer_iff (h : (Number.integer n).Fits) :
    x.IsNearest n ↔ x.ordinal = Binary64.ordinalOfInt n := by
  obtain ⟨hlow, hhigh⟩ := h
  have hsmall : |(n : ℚ)| < Binary64.tooLarge := by
    have habs : |n| < 2 ^ 64 := abs_lt.mpr ⟨by omega, hhigh⟩
    exact lt_of_lt_of_le (by exact_mod_cast habs) Binary64.two_pow_le_tooLarge
  rw [Binary64.isNearest_iff hsmall]
  constructor
  · exact fun hnearest => hnearest.unique (Binary64.isNearestOrdinal_ordinalOfInt n)
  · intro heq
    rw [heq]
    exact Binary64.isNearestOrdinal_ordinalOfInt n

/-- Among whole numbers one is outermost exactly. -/
theorem exists_outermost_integer (side : Side) (h : .integer n ∈ numbers) :
    ∃ m, .integer m ∈ numbers ∧ ∀ k, .integer k ∈ numbers → side.Le m k := by
  have hinjective : Function.Injective Number.integer := fun m k h => Number.integer.inj h
  have hfinite : {m | Number.integer m ∈ numbers}.Finite :=
    numbers.finite_toSet.preimage hinjective.injOn
  cases side with
  | low => exact Set.exists_min_image _ id hfinite ⟨n, h⟩
  | high => exact Set.exists_max_image _ id hfinite ⟨n, h⟩

/-- A whole number that nothing replaces is the outermost one, and a double that compares as equal
with it is the outermost double. -/
theorem blurred_of_kept_integer (hfits : ∀ a ∈ numbers, a.Fits) (hn : .integer n ∈ numbers)
    (hkept : ∀ a ∈ numbers, ¬side.Beyond a (.integer n)) (hx : .float x ∈ numbers)
    (hsame : x.ordinal = Binary64.ordinalOfInt n) (hne : x.exact ≠ n) :
    side.Blurred numbers n x where
  integer_mem := hn
  float_mem := hx
  integer_outermost m hm := not_beyond_integer.mp (hkept _ hm)
  float_outermost y hy := by
    have hord : side.Le (Binary64.ordinalOfInt n) y.ordinal :=
      not_beyond_float_left.mp (hkept _ hy)
    rw [← hsame] at hord
    exact Le.exact_float.mpr hord
  nearest := (isNearest_integer_iff (hfits _ hn)).mpr hsame
  ne := hne

/-- A double that nothing replaces is the outermost one. A whole number that compares as equal with
it need not be outermost, but then the outermost one compares as equal too. -/
theorem exists_blurred_of_kept_float (hfits : ∀ a ∈ numbers, a.Fits) (hx : .float x ∈ numbers)
    (hkept : ∀ a ∈ numbers, ¬side.Beyond a (.float x)) {k : Int} (hk : .integer k ∈ numbers)
    (hsame : Binary64.ordinalOfInt k = x.ordinal) (hle : ¬side.Le x.exact (k : ℚ)) :
    ∃ n, side.Blurred numbers n x := by
  obtain ⟨n, hn, houtermost⟩ := exists_outermost_integer side hk
  have hnk : side.Le (n : ℚ) (k : ℚ) := Le.cast.mpr (houtermost k hk)
  have hord : side.Le (Number.integer n).ordinal (Number.integer k).ordinal := Le.ordinal hnk
  have hback : side.Le x.ordinal (Number.integer n).ordinal :=
    not_beyond_float_right.mp (hkept _ hn)
  refine ⟨n, hn, hx, houtermost, fun y hy => ?_, ?_, fun heq => ?_⟩
  · exact Le.exact_float.mpr (not_beyond_float_left.mp (hkept _ hy))
  · refine (isNearest_integer_iff (hfits _ hn)).mpr (hback.antisymm ?_)
    rw [← hsame]
    exact hord
  · rw [heq] at hle
    exact hle hnk

/-- A bound that nothing replaces is right, unless there are a whole number and a double on its side
that are confused. -/
theorem le_exact_of_clear (hfits : ∀ a ∈ numbers, a.Fits)
    (hclear : ∀ n x, ¬side.Blurred numbers n x) {bound : Number} (hbound : bound ∈ numbers)
    (hkept : ∀ a ∈ numbers, ¬side.Beyond a bound) :
    ∀ a ∈ numbers, side.Le bound.exact a.exact := by
  intro a ha
  by_contra hle
  have hout : side.Le a.exact bound.exact := (le_total side _ _).resolve_left hle
  have hsame : a.ordinal = bound.ordinal :=
    hout.ordinal.antisymm (le_ordinal_of_not_beyond (hkept a ha))
  cases bound with
  | integer n =>
    cases a with
    | integer m => exact hle (Le.cast.mpr (not_beyond_integer.mp (hkept _ ha)))
    | float x =>
      -- the kept whole number has the rank of a double that lies farther out
      have hne : x.exact ≠ n := by
        intro heq
        have hself : side.Le (n : ℚ) x.exact := heq ▸ le_self x.exact
        exact hle hself
      exact hclear n x (blurred_of_kept_integer hfits hbound hkept ha hsame hne)
  | float x =>
    cases a with
    | float y => exact hle (Le.exact_float.mpr (not_beyond_float_left.mp (hkept _ ha)))
    | integer k =>
      -- the kept double has the rank of a whole number that lies farther out
      obtain ⟨n, hblurred⟩ := exists_blurred_of_kept_float hfits hbound hkept ha hsame hle
      exact hclear n x hblurred

namespace Blurred

variable (h : side.Blurred numbers n x)

include h in
theorem ordinal_eq (hfits : ∀ a ∈ numbers, a.Fits) : x.ordinal = Binary64.ordinalOfInt n :=
  (isNearest_integer_iff (hfits _ h.integer_mem)).mp h.nearest

include h in
/-- The whole number is kept where it comes first. -/
theorem exists_outermost_eq_integer (hfits : ∀ a ∈ numbers, a.Fits) :
    ∃ rest, (Number.integer n :: rest).Perm numbers ∧
      side.outermost (.integer n) rest = .integer n := by
  refine ⟨_, (List.perm_cons_erase h.integer_mem).symm, best_eq_first fun a ha => ?_⟩
  have hmem : a ∈ numbers := List.mem_of_mem_erase ha
  cases a with
  | integer m => exact not_beyond_integer.mpr (h.integer_outermost m hmem)
  | float y =>
    have hord := Le.exact_float.mp (h.float_outermost y hmem)
    rw [h.ordinal_eq hfits] at hord
    exact not_beyond_float_left.mpr hord

include h in
/-- The double is kept where it comes first. -/
theorem exists_outermost_eq_float (hfits : ∀ a ∈ numbers, a.Fits) :
    ∃ rest, (Number.float x :: rest).Perm numbers ∧ side.outermost (.float x) rest = .float x := by
  refine ⟨_, (List.perm_cons_erase h.float_mem).symm, best_eq_first fun a ha => ?_⟩
  have hmem : a ∈ numbers := List.mem_of_mem_erase ha
  refine not_beyond_float_right.mpr ?_
  cases a with
  | float y => exact Le.exact_float.mp (h.float_outermost y hmem)
  | integer m =>
    have hord : side.Le (Number.integer n).ordinal (Number.integer m).ordinal :=
      Le.ordinal (Le.cast.mpr (h.integer_outermost m hmem))
    rw [h.ordinal_eq hfits]
    exact hord

end Blurred

/-- A side is right for every order of the numbers unless some are confused there. -/
theorem forall_le_exact_iff (hfits : ∀ a ∈ numbers, a.Fits) :
    (∀ first rest, (first :: rest).Perm numbers →
      ∀ a ∈ numbers, side.Le (side.outermost first rest).exact a.exact) ↔
    ∀ n x, ¬side.Blurred numbers n x := by
  constructor
  · intro hall n x h
    obtain ⟨rest, hperm, hbound⟩ := h.exists_outermost_eq_integer hfits
    obtain ⟨rest', hperm', hbound'⟩ := h.exists_outermost_eq_float hfits
    have hle := hall _ _ hperm _ h.float_mem
    have hle' := hall _ _ hperm' _ h.integer_mem
    rw [hbound] at hle
    rw [hbound'] at hle'
    exact h.ne (hle'.antisymm hle)
  · intro hclear first rest hperm
    have hbound : side.outermost first rest ∈ numbers := hperm.mem_iff.mp (outermost_mem first rest)
    have hkept : ∀ a ∈ numbers, ¬side.Beyond a (side.outermost first rest) :=
      fun a ha => not_beyond_outermost first rest a (hperm.mem_iff.mpr ha)
    exact le_exact_of_clear hfits hclear hbound hkept

/-- A side is the same for every order of the numbers unless some are confused there. -/
theorem forall_exact_eq_iff (hfits : ∀ a ∈ numbers, a.Fits) :
    (∀ first rest first' rest', (first :: rest).Perm numbers → (first' :: rest').Perm numbers →
      (side.outermost first rest).exact = (side.outermost first' rest').exact) ↔
    ∀ n x, ¬side.Blurred numbers n x := by
  constructor
  · intro hall n x h
    obtain ⟨rest, hperm, hbound⟩ := h.exists_outermost_eq_integer hfits
    obtain ⟨rest', hperm', hbound'⟩ := h.exists_outermost_eq_float hfits
    have heq := hall _ _ _ _ hperm' hperm
    rw [hbound, hbound'] at heq
    exact h.ne heq
  · intro hclear first rest first' rest' hperm hperm'
    have hall := (forall_le_exact_iff hfits).mpr hclear
    exact (hall first rest hperm _ (hperm'.mem_iff.mp (outermost_mem _ _))).antisymm
      (hall first' rest' hperm' _ (hperm.mem_iff.mp (outermost_mem _ _)))

/-- Whole numbers that a double can hold are not blurred, as the nearest double is the number
itself. -/
theorem not_blurred_of_small (hsmall : ∀ m, .integer m ∈ numbers → |m| ≤ 2 ^ 53) :
    ¬side.Blurred numbers n x :=
  fun h => h.ne (h.nearest.exact_eq_integer (hsmall n h.integer_mem))

end Side

/-! ## The bounds of numbers -/

/-- Some numbers, in this order, make a range with two bounds. -/
def HasBounds (numbers : List Number) (low high : Number) : Prop :=
  ofParam (.array (numbers.map .number)) = .ok (.number low, .number high)

/-- The bounds of numbers are the outermost ones of both sides. -/
theorem hasBounds_cons (first : Number) (rest : List Number) :
    HasBounds (first :: rest) (Side.low.outermost first rest) (Side.high.outermost first rest) :=
  ofParam_eq_ok.mpr (extremes?_map (fun _ _ => rfl) first rest)

/-- Numbers with bounds are not empty, and the bounds are the outermost ones. -/
theorem exists_of_hasBounds {numbers : List Number} {low high : Number}
    (h : HasBounds numbers low high) : ∃ first rest, numbers = first :: rest ∧
      low = Side.low.outermost first rest ∧ high = Side.high.outermost first rest := by
  cases numbers with
  | nil => cases h
  | cons first rest =>
    have hsame := (hasBounds_cons first rest).symm.trans h
    cases hsame
    exact ⟨first, rest, rfl, rfl, rfl⟩

/-- Every order of some numbers has bounds, which are right as doubles. They are exactly right, and
the same for every order, unless a whole number and a double are confused at an end. -/
theorem hasBounds_numbers {numbers : List Number} (hne : numbers ≠ [])
    (hfits : ∀ a ∈ numbers, a.Fits) :
    (∀ others : List Number, others.Perm numbers → ∃ low ∈ numbers, ∃ high ∈ numbers,
      HasBounds others low high ∧ ∀ a ∈ numbers, low.ordinal ≤ a.ordinal ∧ a.ordinal ≤ high.ordinal) ∧
    ((∀ (others : List Number) low high, others.Perm numbers → HasBounds others low high →
        ∀ a ∈ numbers, low.exact ≤ a.exact ∧ a.exact ≤ high.exact) ↔
      ∀ side n x, ¬Side.Blurred side numbers n x) ∧
    ((∀ (others others' : List Number) low high low' high',
        others.Perm numbers → others'.Perm numbers →
        HasBounds others low high → HasBounds others' low' high' →
        low.exact = low'.exact ∧ high.exact = high'.exact) ↔
      ∀ side n x, ¬Side.Blurred side numbers n x) ∧
    ((∀ n, .integer n ∈ numbers → |n| ≤ 2 ^ 53) → ∀ side n x, ¬Side.Blurred side numbers n x) := by
  refine ⟨?_, ⟨?_, ?_⟩, ⟨?_, ?_⟩, fun hsmall side n x => Side.not_blurred_of_small hsmall⟩
  · -- as doubles the bounds are right for every order
    intro others hperm
    cases others with
    | nil => exact absurd hperm.nil_eq.symm hne
    | cons first rest =>
      refine ⟨_, hperm.mem_iff.mp (Side.low.outermost_mem first rest), _,
        hperm.mem_iff.mp (Side.high.outermost_mem first rest), hasBounds_cons first rest, ?_⟩
      intro a ha
      have hmem : a ∈ first :: rest := hperm.mem_iff.mpr ha
      exact ⟨Side.le_ordinal_of_not_beyond (Side.low.not_beyond_outermost first rest a hmem),
        Side.le_ordinal_of_not_beyond (Side.high.not_beyond_outermost first rest a hmem)⟩
  · -- exactly right for every order: each side on its own
    intro hall side
    refine (Side.forall_le_exact_iff hfits).mp fun first rest hperm a ha => ?_
    have hends := hall _ _ _ hperm (hasBounds_cons first rest) a ha
    cases side with
    | low => exact hends.1
    | high => exact hends.2
  · intro hclear others low high hperm hbounds a ha
    obtain ⟨first, rest, rfl, rfl, rfl⟩ := exists_of_hasBounds hbounds
    exact ⟨(Side.forall_le_exact_iff hfits).mpr (hclear .low) first rest hperm a ha,
      (Side.forall_le_exact_iff hfits).mpr (hclear .high) first rest hperm a ha⟩
  · -- the same for every order: each side on its own
    intro hall side
    refine (Side.forall_exact_eq_iff hfits).mp fun first rest first' rest' hperm hperm' => ?_
    have hends := hall _ _ _ _ _ _ hperm hperm' (hasBounds_cons first rest)
      (hasBounds_cons first' rest')
    cases side with
    | low => exact hends.1
    | high => exact hends.2
  · intro hclear others others' low high low' high' hperm hperm' hbounds hbounds'
    obtain ⟨first, rest, rfl, rfl, rfl⟩ := exists_of_hasBounds hbounds
    obtain ⟨first', rest', rfl, rfl, rfl⟩ := exists_of_hasBounds hbounds'
    exact ⟨(Side.forall_exact_eq_iff hfits).mpr (hclear .low) _ _ _ _ hperm hperm',
      (Side.forall_exact_eq_iff hfits).mpr (hclear .high) _ _ _ _ hperm hperm'⟩

/-- The double `2 ^ 53`. -/
def twoPow53 : Binary64 :=
  ⟨false, 1076 * 2 ^ 52, by decide +kernel⟩

theorem exact_twoPow53 : twoPow53.exact = 9007199254740992 := by
  have hunits : Binary64.units (1076 * 2 ^ 52) = 9007199254740992 * Binary64.unitsPerOne := by
    decide +kernel
  show Binary64.size (1076 * 2 ^ 52) = _
  rw [Binary64.size, hunits, Nat.cast_mul, mul_div_assoc, div_self Binary64.unitsPerOne_pos_rat.ne',
    mul_one]
  rfl

/-- Up to `2 ^ 53` every order of whole numbers and doubles has the right bounds. -/
theorem hasBounds_numbers_small :
    ∃ low high low' high',
      HasBounds [.integer (-3), .float twoPow53, .integer 9007199254740992] low high ∧
      HasBounds [.integer 9007199254740992, .float twoPow53, .integer (-3)] low' high' ∧
      low.exact ≤ -3 ∧ 9007199254740992 ≤ high.exact ∧
      low.exact = low'.exact ∧ high.exact = high'.exact := by
  generalize hnumbers : [Number.integer (-3), .float twoPow53, .integer 9007199254740992] = numbers
  have hne : numbers ≠ [] := by simp [← hnumbers]
  have hfits : ∀ a ∈ numbers, a.Fits := by simp [← hnumbers, Number.Fits]
  have hsmall : ∀ n, Number.integer n ∈ numbers → |n| ≤ 2 ^ 53 := by simp [← hnumbers]
  obtain ⟨hbounds, hexact, hsame, hclear⟩ := hasBounds_numbers hne hfits
  obtain ⟨low, -, high, -, h, -⟩ := hbounds numbers (List.Perm.refl numbers)
  obtain ⟨low', -, high', -, h', -⟩ := hbounds numbers.reverse (List.reverse_perm numbers)
  have hends := hexact.mpr (hclear hsmall) _ _ _ (List.Perm.refl numbers) h
  have hequal := hsame.mpr (hclear hsmall) _ _ _ _ _ _ (List.Perm.refl numbers)
    (List.reverse_perm numbers) h h'
  rw [← hnumbers] at h' hends
  refine ⟨low, high, low', high', h, h', ?_, ?_, hequal⟩
  · have hlow := (hends (.integer (-3)) (by simp)).1
    exact_mod_cast hlow
  · have hhigh := (hends (.integer 9007199254740992) (by simp)).2
    exact_mod_cast hhigh

/-- Of two numbers that compare as equal the first one is kept, on both sides. -/
theorem hasBounds_pair {a b : Number} (h : b.order a = .eq) : HasBounds [a, b] a a := by
  have hkept : ∀ side : Side, side.outermost a [b] = a := by
    intro side
    refine best_eq_first fun c hc => ?_
    rw [List.mem_singleton.mp hc]
    show ¬b.order a = side.outcome
    rw [h]
    cases side <;> decide
  have hbounds := hasBounds_cons a [b]
  rwa [hkept, hkept] at hbounds

/-- Of a whole number and its nearest double, the one that comes first makes both bounds. -/
theorem hasBounds_blurred :
    HasBounds [.integer 9007199254740993, .float twoPow53]
      (.integer 9007199254740993) (.integer 9007199254740993) ∧
    HasBounds [.float twoPow53, .integer 9007199254740993] (.float twoPow53) (.float twoPow53) ∧
    Number.exact (.float twoPow53) < Number.exact (.integer 9007199254740993) := by
  have hfloat : (Number.float twoPow53).order (.integer 9007199254740993) = .eq := by
    decide +kernel
  have hinteger : (Number.integer 9007199254740993).order (.float twoPow53) = .eq := by
    decide +kernel
  refine ⟨hasBounds_pair hfloat, hasBounds_pair hinteger, ?_⟩
  show twoPow53.exact < ((9007199254740993 : Int) : ℚ)
  rw [exact_twoPow53]
  norm_num

end Bounds

end Sift
