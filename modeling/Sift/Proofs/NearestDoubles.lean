import Mathlib.Algebra.Order.Field.Power
import Mathlib.Algebra.Order.Field.Rat
import Mathlib.Data.Nat.Log
import Mathlib.Data.Rat.Cast.Order
import Mathlib.Order.Monotone.Basic
import Mathlib.Tactic.FieldSimp
import Mathlib.Tactic.Linarith
import Mathlib.Tactic.Positivity
import Mathlib.Tactic.Ring
import Sift.Binary64.Nearest

/-!
# Nearest doubles

A double has an exact value, a fraction of whole numbers. The nearest double to a number is the one
whose exact value lies closest to the number; of two that are equally close it is the even one. This
is said here without a word about digits, and what `nearestRank` computes is shown to be just that,
for whole numbers and for decimal numerals of any length.

Sizes are compared first as if there were ranks without end. Signs and the largest double come in
afterwards.
-/

namespace Sift

namespace Binary64

/-! ## Sizes of ranks -/

/-- The exact size of a rank. -/
def size (rank : Nat) : ℚ :=
  units rank / unitsPerOne

/-- The exact value of a double. -/
def exact (x : Binary64) : ℚ :=
  if x.negative then -size x.rank.val else size x.rank.val

theorem unitsPerOne_eq : unitsPerOne = 2 ^ 1074 := by
  decide +kernel

theorem unitsPerOne_pos : 0 < unitsPerOne := by
  rw [unitsPerOne_eq]
  positivity

/-- A rank by its binary digits: `digits` of them are scaled by a power of two, and there are 53 of
them unless the power is the smallest one. The next power begins where the digits would be `2 ^ 53`,
so that case may be counted to either. -/
theorem units_digits {shift digits : Nat} (hdigits : digits ≤ 2 ^ 53)
    (hnormal : shift = 0 ∨ 2 ^ 52 ≤ digits) :
    units (shift * 2 ^ 52 + digits) = digits * 2 ^ shift := by
  unfold units
  simp only [Nat.pow_eq]
  by_cases hsmall : digits < 2 ^ 52
  · obtain rfl : shift = 0 := by omega
    have hblock : (0 * 2 ^ 52 + digits) / 2 ^ 52 = 0 := by omega
    rw [if_pos hblock]
    omega
  by_cases htop : digits = 2 ^ 53
  · have hblock : (shift * 2 ^ 52 + digits) / 2 ^ 52 = shift + 2 := by omega
    have hplace : (shift * 2 ^ 52 + digits) % 2 ^ 52 = 0 := by omega
    have hshift : shift + 2 - 1 = shift + 1 := by omega
    rw [if_neg (by omega), hblock, hplace, htop, Nat.add_zero, hshift, Nat.pow_succ 2 shift]
    ring
  · have hblock : (shift * 2 ^ 52 + digits) / 2 ^ 52 = shift + 1 := by omega
    have hplace : 2 ^ 52 + (shift * 2 ^ 52 + digits) % 2 ^ 52 = digits := by omega
    rw [if_neg (by omega), hblock, hplace, Nat.add_sub_cancel]

/-- The first ranks count units one by one. -/
theorem units_of_le {n : Nat} (h : n ≤ 2 ^ 53) : units n = n := by
  have hunits := units_digits h (Or.inl (Eq.refl 0))
  simpa using hunits

/-- A rank is a shift and digits that are at least half full unless nothing is shifted. -/
theorem exists_digits (rank : Nat) : ∃ shift digits, rank = shift * 2 ^ 52 + digits ∧
    digits < 2 ^ 53 ∧ (shift = 0 ∨ 2 ^ 52 ≤ digits) := by
  refine ⟨rank / 2 ^ 52 - 1, rank - (rank / 2 ^ 52 - 1) * 2 ^ 52, ?_, ?_, ?_⟩ <;> omega

/-- The step from a rank to the next one is a power of two. -/
theorem exists_step (rank : Nat) : ∃ shift digits, units rank = digits * 2 ^ shift ∧
    units (rank + 1) = units rank + 2 ^ shift ∧ (2 ^ 52 ≤ rank → 2 ^ 52 ≤ digits) := by
  obtain ⟨shift, digits, rfl, hdigits, hnormal⟩ := exists_digits rank
  have hrank : units (shift * 2 ^ 52 + digits) = digits * 2 ^ shift :=
    units_digits hdigits.le hnormal
  have hnext : units (shift * 2 ^ 52 + (digits + 1)) = (digits + 1) * 2 ^ shift :=
    units_digits (by omega) (by omega)
  refine ⟨shift, digits, hrank, ?_, by omega⟩
  rw [hrank, Nat.add_assoc, hnext, Nat.succ_mul]

/-- Greater ranks have more units. -/
theorem units_strictMono : StrictMono units := by
  refine strictMono_nat_of_lt_succ fun rank => ?_
  obtain ⟨shift, digits, -, hnext, -⟩ := exists_step rank
  have hstep : 0 < 2 ^ shift := Nat.two_pow_pos shift
  omega

theorem unitsPerOne_pos_rat : (0 : ℚ) < unitsPerOne := by
  exact_mod_cast unitsPerOne_pos

/-- Greater ranks are greater doubles. -/
theorem size_strictMono : StrictMono size := by
  intro rank other h
  have hunits : (units rank : ℚ) < units other := by exact_mod_cast units_strictMono h
  exact div_lt_div_of_pos_right hunits unitsPerOne_pos_rat

theorem size_zero : size 0 = 0 := by
  have hunits : units 0 = 0 := units_of_le (by omega)
  rw [size, hunits, Nat.cast_zero, zero_div]

theorem size_nonneg (rank : Nat) : 0 ≤ size rank :=
  size_zero ▸ size_strictMono.monotone (Nat.zero_le rank)

/-- Behind the small ranks, the step to the next rank is small against the size. -/
theorem size_succ_sub_le {rank : Nat} (h : 2 ^ 52 ≤ rank) :
    (size (rank + 1) - size rank) * 2 ^ 52 ≤ size rank := by
  obtain ⟨shift, digits, hrank, hnext, hdigits⟩ := exists_step rank
  have hunits : (units (rank + 1) : ℚ) - units rank = 2 ^ shift := by
    rw [hnext]
    push_cast
    ring
  have hsmall : (2 : ℚ) ^ shift * 2 ^ 52 ≤ units rank := by
    have hmul : 2 ^ shift * 2 ^ 52 ≤ units rank := by
      rw [hrank, Nat.mul_comm digits]
      exact Nat.mul_le_mul_left _ (hdigits h)
    exact_mod_cast hmul
  rw [size, size, ← sub_div, hunits, div_mul_eq_mul_div]
  exact div_le_div_of_nonneg_right hsmall unitsPerOne_pos_rat.le

/-- A whole number up to `2 ^ 53` is the size of a rank. -/
theorem exists_size_eq {n : Nat} (h : n ≤ 2 ^ 53) : ∃ rank, size rank = n := by
  suffices hunits : ∃ rank, units rank = n * unitsPerOne by
    obtain ⟨rank, hrank⟩ := hunits
    refine ⟨rank, ?_⟩
    rw [size, hrank, Nat.cast_mul, mul_div_assoc, div_self unitsPerOne_pos_rat.ne', mul_one]
  rw [unitsPerOne_eq]
  by_cases hzero : n = 0
  · refine ⟨0 * 2 ^ 52 + 0, ?_⟩
    rw [units_digits (by omega) (Or.inl rfl), hzero, Nat.zero_mul, Nat.zero_mul]
  by_cases htop : n = 2 ^ 53
  · refine ⟨1074 * 2 ^ 52 + 2 ^ 53, ?_⟩
    rw [units_digits le_rfl (Or.inr (by omega)), htop]
  -- as many zeros behind the binary digits of `n` as make 53 digits
  have hlog : n.log2 < 53 := (Nat.log2_lt hzero).mpr (by omega)
  have hlow : 2 ^ 52 ≤ n * 2 ^ (52 - n.log2) := by
    have hmul := Nat.mul_le_mul_right (2 ^ (52 - n.log2)) (Nat.log2_self_le hzero)
    rwa [← Nat.pow_add, show n.log2 + (52 - n.log2) = 52 by omega] at hmul
  have hhigh : n * 2 ^ (52 - n.log2) ≤ 2 ^ 53 := by
    have hmul := Nat.mul_le_mul_right (2 ^ (52 - n.log2)) (Nat.lt_log2_self (n := n)).le
    rwa [← Nat.pow_add, show n.log2 + 1 + (52 - n.log2) = 53 by omega] at hmul
  refine ⟨(1022 + n.log2) * 2 ^ 52 + n * 2 ^ (52 - n.log2), ?_⟩
  have hshift : 52 - n.log2 + (1022 + n.log2) = 1074 := by omega
  rw [units_digits hhigh (Or.inr hlow), Nat.mul_assoc, ← Nat.pow_add]
  exact congrArg (fun e => n * 2 ^ e) hshift

/-! ## Nearest ranks -/

/-- The rank is nearest to a size: no other one is closer, and if another one is as close, it is
even. -/
structure IsNearestRank (rank : Nat) (a : ℚ) : Prop where
  closest : ∀ other, |a - size rank| ≤ |a - size other|
  even : ∀ other, other ≠ rank → |a - size other| = |a - size rank| → rank % 2 = 0

variable {rank low : Nat} {a b : ℚ}

/-- Of two sizes the lower one is closer to everything up to their middle. -/
theorem abs_sub_le_abs_sub_iff {s t : ℚ} (h : s < t) : |a - s| ≤ |a - t| ↔ 2 * a ≤ s + t := by
  rw [← sq_le_sq]
  constructor
  · intro hle
    by_contra hmiddle
    have hpos : 0 < (t - s) * (2 * a - (s + t)) := mul_pos (by linarith) (by linarith)
    linarith [show (a - s) ^ 2 - (a - t) ^ 2 = (t - s) * (2 * a - (s + t)) by ring]
  · intro hmiddle
    have hnonneg : 0 ≤ (t - s) * (s + t - 2 * a) := mul_nonneg (by linarith) (by linarith)
    linarith [show (a - t) ^ 2 - (a - s) ^ 2 = (t - s) * (s + t - 2 * a) by ring]

theorem abs_sub_le_abs_sub_iff' {s t : ℚ} (h : s < t) : |a - t| ≤ |a - s| ↔ s + t ≤ 2 * a := by
  have hneg := abs_sub_le_abs_sub_iff (a := -a) (neg_lt_neg h)
  rw [abs_sub_comm a t, abs_sub_comm a s]
  have ht : -a - -t = t - a := by ring
  have hs : -a - -s = s - a := by ring
  rw [ht, hs] at hneg
  rw [hneg]
  constructor <;> intro hle <;> linarith

/-- No number has two nearest ranks: of two that are equally near one is odd. -/
theorem IsNearestRank.unique {other : Nat} (h : IsNearestRank rank a)
    (hother : IsNearestRank other a) : rank = other := by
  wlog hlt : rank < other generalizing rank other
  · rcases Nat.lt_trichotomy rank other with h' | h' | h'
    · exact absurd h' hlt
    · exact h'
    · exact (this hother h h').symm
  have heq : |a - size rank| = |a - size other| := (h.closest other).antisymm (hother.closest rank)
  have heven : rank % 2 = 0 := h.even other (by omega) heq.symm
  have heven' : other % 2 = 0 := hother.even rank (by omega) heq
  -- between two even ranks there is another one, and it would be closer
  have hlow : size rank < size (rank + 1) := size_strictMono (by omega)
  have hhigh : size (rank + 1) < size other := size_strictMono (by omega)
  have hmiddle := (abs_sub_le_abs_sub_iff' (size_strictMono hlt)).mp heq.ge
  have hbelow := (abs_sub_le_abs_sub_iff hlow).mp (h.closest (rank + 1))
  linarith

theorem IsNearestRank.le_of_lt {other : Nat} (h : IsNearestRank rank a)
    (hother : IsNearestRank other b) (hlt : a < b) : rank ≤ other := by
  by_contra hle
  have hsize : size other < size rank := size_strictMono (by omega)
  have hrank := (abs_sub_le_abs_sub_iff' hsize).mp (h.closest other)
  have hotherLow := (abs_sub_le_abs_sub_iff hsize).mp (hother.closest rank)
  linarith

/-- Greater numbers have greater nearest ranks, or the same. -/
theorem IsNearestRank.monotone {other : Nat} (h : IsNearestRank rank a)
    (hother : IsNearestRank other b) (hle : a ≤ b) : rank ≤ other := by
  rcases hle.lt_or_eq with hlt | rfl
  · exact h.le_of_lt hother hlt
  · exact (h.unique hother).le

/-- A double is nearest to itself. -/
theorem isNearestRank_size (rank : Nat) : IsNearestRank rank (size rank) where
  closest other := by simp
  even other hne h := by
    have hsize : size rank = size other := by simpa [sub_eq_zero] using h
    exact absurd (size_strictMono.injective hsize).symm hne

/-- A double is nearest if every other one is farther, or as far where it is even. -/
theorem isNearestRank_of_farther (h : ∀ other, other ≠ rank →
    |a - size rank| < |a - size other| ∨
      |a - size rank| ≤ |a - size other| ∧ rank % 2 = 0) : IsNearestRank rank a where
  closest other := by
    by_cases hne : other = rank
    · rw [hne]
    rcases h other hne with hlt | ⟨hle, -⟩
    · exact hlt.le
    · exact hle
  even other hne heq := by
    rcases h other hne with hlt | ⟨-, heven⟩
    · exact absurd heq hlt.ne'
    · exact heven

/-- In the lower half of a step the lower end is nearest, and in the middle if it is even. -/
theorem isNearestRank_low (hlow : size low ≤ a) (hhalf : 2 * a ≤ size low + size (low + 1))
    (heven : 2 * a = size low + size (low + 1) → low % 2 = 0) : IsNearestRank low a := by
  have hdistance : |a - size low| = a - size low := abs_of_nonneg (by linarith)
  refine isNearestRank_of_farther fun other hne => ?_
  rw [hdistance]
  rcases Nat.lt_or_gt_of_ne hne with hbelow | habove
  · have hsize : size other < size low := size_strictMono hbelow
    exact Or.inl (by linarith [le_abs_self (a - size other)])
  · -- the others above are not closer than the upper end
    have hsize : size (low + 1) ≤ size other := size_strictMono.monotone habove
    rcases hhalf.lt_or_eq with hlt | hmiddle
    · exact Or.inl (by linarith [neg_abs_le (a - size other)])
    · exact Or.inr ⟨by linarith [neg_abs_le (a - size other)], heven hmiddle⟩

/-- In the upper half of a step the upper end is nearest, and in the middle if it is even. -/
theorem isNearestRank_high (hhigh : a < size (low + 1))
    (hhalf : size low + size (low + 1) ≤ 2 * a)
    (heven : 2 * a = size low + size (low + 1) → (low + 1) % 2 = 0) :
    IsNearestRank (low + 1) a := by
  have hdistance : |a - size (low + 1)| = size (low + 1) - a := by
    rw [abs_sub_comm]
    exact abs_of_nonneg (by linarith)
  refine isNearestRank_of_farther fun other hne => ?_
  rw [hdistance]
  rcases Nat.lt_or_gt_of_ne hne with hbelow | habove
  · -- the others below are not closer than the lower end
    have hsize : size other ≤ size low := size_strictMono.monotone (Nat.le_of_lt_succ hbelow)
    rcases hhalf.lt_or_eq with hlt | hmiddle
    · exact Or.inl (by linarith [le_abs_self (a - size other)])
    · exact Or.inr ⟨by linarith [le_abs_self (a - size other)], heven hmiddle.symm⟩
  · have hsize : size (low + 1) < size other := size_strictMono habove
    exact Or.inl (by linarith [neg_abs_le (a - size other)])

/-- A number cut off at 53 binary digits keeps all of them unless it has fewer. -/
theorem cut_bounds (n : Nat) :
    n / 2 ^ (n.log2 - 52) < 2 ^ 53 ∧ (n.log2 - 52 = 0 ∨ 2 ^ 52 ≤ n / 2 ^ (n.log2 - 52)) := by
  have hpow : 0 < 2 ^ (n.log2 - 52) := Nat.two_pow_pos _
  constructor
  · rw [Nat.div_lt_iff_lt_mul hpow, ← Nat.pow_add]
    exact Nat.lt_log2_self.trans_le (Nat.pow_le_pow_right (by omega) (by omega))
  · by_cases hshift : n.log2 - 52 = 0
    · exact Or.inl hshift
    right
    have hne : n ≠ 0 := by
      rintro rfl
      rw [Nat.log2_zero] at hshift
      omega
    rw [Nat.le_div_iff_mul_le hpow, ← Nat.pow_add, show 52 + (n.log2 - 52) = n.log2 by omega]
    exact Nat.log2_self_le hne

/-- The step of ranks in which a number lies, measured in parts of a unit: `rest` of them are cut
off, and a step has `step` of them. -/
theorem exists_low (numerator : Nat) {denominator : Nat} (h : 0 < denominator) :
    ∃ low rest step, nearestRank numerator denominator =
        (if 2 * rest < step || (2 * rest == step && low % 2 == 0) then low else low + 1) ∧
      rest < step ∧ numerator * unitsPerOne = units low * denominator + rest ∧
      units (low + 1) * denominator = units low * denominator + step := by
  generalize hscaled : numerator * unitsPerOne = scaled
  obtain ⟨hbound, hnormal⟩ := cut_bounds (scaled / denominator)
  rw [Nat.div_div_eq_div_mul] at hbound hnormal
  refine ⟨_, scaled % (denominator * 2 ^ ((scaled / denominator).log2 - 52)),
    denominator * 2 ^ ((scaled / denominator).log2 - 52),
    by simp only [nearestRank, Nat.pow_eq, hscaled]; rfl, ?_, ?_, ?_⟩
  · exact Nat.mod_lt _ (Nat.mul_pos h (Nat.two_pow_pos _))
  · rw [units_digits hbound.le hnormal, Nat.mul_assoc, Nat.mul_comm (2 ^ _) denominator,
      Nat.div_add_mod']
  · have hnext : ∀ shift digits, digits < 2 ^ 53 → (shift = 0 ∨ 2 ^ 52 ≤ digits) →
        units (shift * 2 ^ 52 + digits + 1) * denominator =
          units (shift * 2 ^ 52 + digits) * denominator + denominator * 2 ^ shift := by
      intro shift digits hdigits hshift
      rw [Nat.add_assoc, units_digits (by omega) (by omega), units_digits hdigits.le hshift]
      ring
    exact hnext _ _ hbound hnormal

/-- What is cut off decides: less than half of the step, or half of it above an even rank, leaves the
rank as it is. Everything is measured in parts here. -/
theorem isNearestRank_cut {rest step : Nat} {parts : ℚ} (hparts : 0 < parts) (hrest : rest < step)
    (hvalue : a * parts = size low * parts + rest)
    (hnext : size (low + 1) * parts = size low * parts + step) :
    IsNearestRank (if 2 * rest < step || (2 * rest == step && low % 2 == 0) then low else low + 1)
      a := by
  -- the middle of the step, told in parts
  have hhalf : 2 * a ≤ size low + size (low + 1) ↔ 2 * rest ≤ step := by
    rw [← mul_le_mul_iff_left₀ hparts, ← Nat.cast_le (α := ℚ)]
    push_cast
    constructor <;> intro hle <;> linarith
  have hhalf' : size low + size (low + 1) ≤ 2 * a ↔ step ≤ 2 * rest := by
    rw [← mul_le_mul_iff_left₀ hparts, ← Nat.cast_le (α := ℚ)]
    push_cast
    constructor <;> intro hle <;> linarith
  split
  · -- the lower half
    next hlower =>
    simp only [Bool.or_eq_true, decide_eq_true_eq, Bool.and_eq_true, beq_iff_eq] at hlower
    refine isNearestRank_low ?_ (hhalf.mpr (by omega)) fun heq => ?_
    · refine le_of_mul_le_mul_right ?_ hparts
      have hnonneg : (0 : ℚ) ≤ rest := Nat.cast_nonneg rest
      linarith
    · have hge := hhalf'.mp heq.ge
      omega
  · -- the upper half
    next hupper =>
    simp only [Bool.or_eq_true, decide_eq_true_eq, Bool.and_eq_true, beq_iff_eq, not_or,
      not_and] at hupper
    refine isNearestRank_high ?_ (hhalf'.mpr (by omega)) fun heq => ?_
    · refine lt_of_mul_lt_mul_right ?_ hparts.le
      have hlt : (rest : ℚ) < step := by exact_mod_cast hrest
      linarith
    · have hle := hhalf.mp heq.le
      omega

/-- What `nearestRank` computes is the nearest rank. -/
theorem isNearestRank_nearestRank (numerator : Nat) {denominator : Nat} (h : 0 < denominator) :
    IsNearestRank (nearestRank numerator denominator) (numerator / denominator) := by
  obtain ⟨low, rest, step, hrank, hrest, hnumber, hstep⟩ := exists_low numerator h
  have hdenominator : (0 : ℚ) < denominator := by exact_mod_cast h
  have hsize : ∀ rank, size rank * (denominator * unitsPerOne) = units rank * denominator := by
    intro rank
    rw [size, mul_left_comm, div_mul_cancel₀ _ unitsPerOne_pos_rat.ne', mul_comm]
  rw [hrank]
  refine isNearestRank_cut (mul_pos hdenominator unitsPerOne_pos_rat) hrest ?_ ?_
  · rw [← mul_assoc, div_mul_cancel₀ _ hdenominator.ne', hsize]
    exact_mod_cast hnumber
  · rw [hsize, hsize]
    exact_mod_cast hstep

/-! ## Signs -/

/-- The exact value of a signed rank. -/
def valueOf (ordinal : Int) : ℚ :=
  if ordinal < 0 then -size ordinal.natAbs else size ordinal.natAbs

/-- The signed rank is nearest to a number: its rank is nearest to the size of the number, and the
signs are not opposite. -/
structure IsNearestOrdinal (ordinal : Int) (q : ℚ) : Prop where
  rank : IsNearestRank ordinal.natAbs |q|
  sign : 0 ≤ ordinal * q

variable {ordinal other : Int} {q r : ℚ} {x y : Binary64}

/-- Signed ranks are nearest on either side of zero alike. -/
theorem IsNearestOrdinal.neg (h : IsNearestOrdinal ordinal q) : IsNearestOrdinal (-ordinal) (-q) where
  rank := by
    rw [Int.natAbs_neg, abs_neg]
    exact h.rank
  sign := by
    have hsign := h.sign
    push_cast
    linarith

/-- A number from zero up has a nearest rank from zero up. -/
theorem IsNearestOrdinal.nonneg (h : IsNearestOrdinal ordinal q) (hq : 0 ≤ q) : 0 ≤ ordinal := by
  by_contra hneg
  have hcast : (ordinal : ℚ) < 0 := by exact_mod_cast not_le.mp hneg
  have hzero : q = 0 := by
    refine le_antisymm ?_ hq
    by_contra hpos
    linarith [h.sign, mul_neg_of_neg_of_pos hcast (not_le.mp hpos)]
  have hrank := h.rank
  rw [hzero, abs_zero, ← size_zero] at hrank
  have habs : ordinal.natAbs = 0 := hrank.unique (isNearestRank_size 0)
  omega

/-- Nearest signed ranks keep the order. -/
theorem IsNearestOrdinal.monotone (h : IsNearestOrdinal ordinal q) (hother : IsNearestOrdinal other r)
    (hle : q ≤ r) : ordinal ≤ other := by
  rcases le_total 0 q with hq | hq
  · have hpos := hother.nonneg (hq.trans hle)
    have habs : ordinal.natAbs ≤ other.natAbs := by
      refine h.rank.monotone hother.rank ?_
      rwa [abs_of_nonneg hq, abs_of_nonneg (hq.trans hle)]
    omega
  · have hneg := h.neg.nonneg (by linarith)
    rcases le_total 0 r with hr | hr
    · have hpos := hother.nonneg hr
      omega
    · have hneg' := hother.neg.nonneg (by linarith)
      have habs : other.natAbs ≤ ordinal.natAbs := by
        refine hother.rank.monotone h.rank ?_
        rw [abs_of_nonpos hq, abs_of_nonpos hr]
        linarith
      omega

/-- No number has two nearest signed ranks. -/
theorem IsNearestOrdinal.unique (h : IsNearestOrdinal ordinal q)
    (hother : IsNearestOrdinal other q) : ordinal = other :=
  (h.monotone hother le_rfl).antisymm (hother.monotone h le_rfl)

/-- A signed rank without its sign is the rank. -/
theorem natAbs_ordinal (x : Binary64) : x.ordinal.natAbs = x.rank.val := by
  unfold Binary64.ordinal
  split <;> simp

/-- The value of the signed rank of a double is the double. -/
theorem valueOf_ordinal (x : Binary64) : valueOf x.ordinal = x.exact := by
  unfold valueOf exact
  rw [natAbs_ordinal]
  unfold Binary64.ordinal
  cases x.negative with
  | false => simp
  | true =>
    by_cases hzero : x.rank.val = 0
    · simp [hzero, size_zero]
    · simp [Nat.pos_of_ne_zero hzero]

theorem abs_exact (x : Binary64) : |x.exact| = size x.rank.val := by
  unfold exact
  split
  · rw [abs_neg, abs_of_nonneg (size_nonneg _)]
  · exact abs_of_nonneg (size_nonneg _)

/-- A double is nearest to itself, with its sign. -/
theorem isNearestOrdinal_exact (x : Binary64) : IsNearestOrdinal x.ordinal x.exact where
  rank := by
    rw [natAbs_ordinal, abs_exact]
    exact isNearestRank_size _
  sign := by
    have hrank : (0 : ℚ) ≤ x.rank.val := Nat.cast_nonneg _
    unfold exact Binary64.ordinal
    split
    · push_cast
      linarith [mul_nonneg hrank (size_nonneg x.rank.val)]
    · push_cast
      exact mul_nonneg hrank (size_nonneg _)

/-- Doubles are in the order of their signed ranks. -/
theorem exact_le_iff : x.exact ≤ y.exact ↔ x.ordinal ≤ y.ordinal := by
  constructor
  · exact x.isNearestOrdinal_exact.monotone y.isNearestOrdinal_exact
  · intro h
    by_contra hlt
    have hback := y.isNearestOrdinal_exact.monotone x.isNearestOrdinal_exact (not_le.mp hlt).le
    rw [← x.valueOf_ordinal, ← y.valueOf_ordinal, le_antisymm h hback] at hlt
    exact hlt le_rfl

/-- The rank by which a whole number is compared is that of the nearest double. -/
theorem isNearestOrdinal_ordinalOfInt (n : Int) : IsNearestOrdinal (ordinalOfInt n) n := by
  have hrank : IsNearestRank (nearestRank n.natAbs 1) |(n : ℚ)| := by
    have h := isNearestRank_nearestRank n.natAbs Nat.one_pos
    rwa [Nat.cast_one, div_one, Nat.cast_natAbs, Int.cast_abs] at h
  have hnonneg : (0 : ℚ) ≤ nearestRank n.natAbs 1 := Nat.cast_nonneg _
  unfold ordinalOfInt
  split
  · next hneg =>
    refine ⟨by rwa [Int.natAbs_neg, Int.natAbs_natCast], ?_⟩
    have hcast : (n : ℚ) ≤ 0 := by exact_mod_cast hneg.le
    push_cast
    linarith [mul_nonneg hnonneg (neg_nonneg.mpr hcast)]
  · next hpos =>
    refine ⟨by rwa [Int.natAbs_natCast], ?_⟩
    have hcast : (0 : ℚ) ≤ n := by exact_mod_cast not_lt.mp hpos
    push_cast
    exact mul_nonneg hnonneg hcast

/-! ## Nearest doubles -/

/-- The double is nearest to a number: no other double is closer, and if another one is as close, it
is even. -/
structure IsNearest (x : Binary64) (q : ℚ) : Prop where
  closest : ∀ y : Binary64, |q - x.exact| ≤ |q - y.exact|
  even : ∀ y : Binary64, y.exact ≠ x.exact → |q - y.exact| = |q - x.exact| → x.rank.val % 2 = 0

/-- From this size on a number has no double: it is the middle between the largest double and what
the next rank would be, which is even. -/
def tooLarge : ℚ :=
  2 ^ 1024 - 2 ^ 970

/-- What fits in 64 bits is far from being too large for a double. -/
theorem two_pow_le_tooLarge : 2 ^ 64 ≤ tooLarge := by
  have hpow : (2 : ℚ) ^ 64 ≤ 2 ^ 970 := pow_le_pow_right₀ (by norm_num) (by omega)
  have hsplit : (2 : ℚ) ^ 1024 = 2 ^ 970 * 2 ^ 54 := by rw [← pow_add]
  unfold tooLarge
  rw [hsplit]
  generalize (2 : ℚ) ^ 970 = power at hpow ⊢
  linarith

/-- What is too large begins in the middle between the largest double and the next rank. -/
theorem size_largest : size (doubleRanks - 1) + size doubleRanks = 2 * tooLarge := by
  have hscale : (2 : ℚ) ^ 2045 / unitsPerOne = 2 * 2 ^ 970 := by
    rw [unitsPerOne_eq, Nat.cast_pow, Nat.cast_ofNat, ← pow_succ', div_eq_iff (by positivity),
      ← pow_add]
  have hsize : ∀ n : Nat, n ≤ 2 ^ 53 → 2 ^ 52 ≤ n →
      size (2045 * 2 ^ 52 + n) = n * (2 * 2 ^ 970) := by
    intro n hle hge
    rw [size, units_digits hle (Or.inr hge), Nat.cast_mul, Nat.cast_pow, Nat.cast_ofNat,
      mul_div_assoc, hscale]
  have hlast : doubleRanks - 1 = 2045 * 2 ^ 52 + (2 ^ 53 - 1) := by decide +kernel
  have hnext : doubleRanks = 2045 * 2 ^ 52 + 2 ^ 53 := by decide +kernel
  have hlimit : tooLarge = (2 ^ 54 - 1) * 2 ^ 970 := by
    have hpow : (2 : ℚ) ^ 1024 = 2 ^ 54 * 2 ^ 970 := by rw [← pow_add]
    rw [tooLarge, hpow, sub_mul, one_mul]
  generalize (2 : ℚ) ^ 970 = power at hsize hlimit
  rw [hlast, hnext, hsize _ (by omega) (by omega), hsize _ le_rfl (by omega), hlimit]
  push_cast
  ring

/-- The nearest rank is that of a double unless the number is too large. -/
theorem IsNearestRank.lt_doubleRanks_iff (h : IsNearestRank rank a) :
    rank < doubleRanks ↔ a < tooLarge := by
  have hlimit := size_largest
  have heven : (doubleRanks - 1) % 2 = 1 := by decide +kernel
  have hpos : 0 < doubleRanks := by decide +kernel
  constructor
  · intro hlt
    have hsize : size rank < size doubleRanks := size_strictMono hlt
    have hmiddle := (abs_sub_le_abs_sub_iff hsize).mp (h.closest doubleRanks)
    by_cases hlast : rank = doubleRanks - 1
    · -- the middle does not belong to the largest double, since that one is odd
      by_contra hle
      have heq : |a - size doubleRanks| = |a - size rank| := by
        refine le_antisymm ((abs_sub_le_abs_sub_iff' hsize).mpr ?_) (h.closest doubleRanks)
        rw [hlast]
        linarith
      have heven' := h.even doubleRanks (by omega) heq
      omega
    · have hbelow : size rank < size (doubleRanks - 1) := size_strictMono (by omega)
      linarith
  · intro hlt
    by_contra hge
    have hsize : size (doubleRanks - 1) < size rank := size_strictMono (by omega)
    have hnext : size doubleRanks ≤ size rank := size_strictMono.monotone (by omega)
    have hmiddle := (abs_sub_le_abs_sub_iff' hsize).mp (h.closest (doubleRanks - 1))
    linarith

/-- The double of the sign of a number that has a rank. -/
theorem exists_sameSign (q : ℚ) {rank : Nat} (h : rank < doubleRanks) :
    ∃ z : Binary64, z.rank.val = rank ∧ 0 ≤ z.exact * q := by
  have hsize := size_nonneg rank
  rcases le_total 0 q with hq | hq
  · exact ⟨⟨false, rank, h⟩, rfl, mul_nonneg hsize hq⟩
  · exact ⟨⟨true, rank, h⟩, rfl, mul_nonneg_of_nonpos_of_nonpos (neg_nonpos.mpr hsize) hq⟩

/-- With the sign of the number, a double is as far from it as their sizes are from each other. -/
theorem abs_sub_exact (h : 0 ≤ x.exact * q) : |q - x.exact| = |(|q| - size x.rank.val)| := by
  rw [← abs_exact, ← sq_eq_sq₀ (abs_nonneg _) (abs_nonneg _), sq_abs, sq_abs, sub_sq, sub_sq, sq_abs,
    sq_abs, mul_assoc, mul_assoc, ← abs_mul, mul_comm q, abs_of_nonneg h]

/-- With any sign, it is at least that far. -/
theorem abs_sub_size_le (q : ℚ) (x : Binary64) : |(|q| - size x.rank.val)| ≤ |q - x.exact| := by
  rw [← abs_exact]
  exact abs_abs_sub_abs_le q x.exact

/-- A double of the nearest rank with the sign of the number is nearest to it. -/
theorem IsNearestRank.isNearest (h : IsNearestRank x.rank.val |q|) (hsign : 0 ≤ x.exact * q) :
    x.IsNearest q where
  closest y := by
    rw [abs_sub_exact hsign]
    exact (h.closest y.rank.val).trans (abs_sub_size_le q y)
  even y hne heq := by
    rw [abs_sub_exact hsign] at heq
    have hsize : |(|q| - size y.rank.val)| = |(|q| - size x.rank.val)| :=
      ((abs_sub_size_le q y).trans heq.le).antisymm (h.closest y.rank.val)
    by_cases hrank : y.rank.val = x.rank.val
    · -- only zero is as close to a double as to the opposite one
      have hopposite : y.exact = -x.exact := by
        refine (abs_eq_abs.mp ?_).resolve_left hne
        rw [abs_exact, abs_exact, hrank]
      rw [← abs_sub_exact hsign, hopposite, abs_eq_abs] at heq
      have hzero : q = 0 := by
        rcases heq with heq | heq
        · exact absurd (by linarith) hne
        · linarith
      rw [hzero, abs_zero, ← size_zero] at h
      rw [h.unique (isNearestRank_size 0)]
    · exact h.even y.rank.val hrank hsize

/-- A nearest double has the sign of the number, or one of the two is zero. -/
theorem IsNearest.sign (h : x.IsNearest q) : 0 ≤ x.exact * q := by
  have hranks : 0 < doubleRanks := by decide +kernel
  obtain ⟨zero, hrank, -⟩ := exists_sameSign q hranks
  have hzero : zero.exact = 0 := by
    rw [← abs_eq_zero, abs_exact, hrank, size_zero]
  have hclosest := h.closest zero
  rw [hzero, sub_zero, ← sq_le_sq] at hclosest
  nlinarith [sq_nonneg x.exact]

/-- A nearest double has the nearest rank, if the number is not too large. -/
theorem IsNearest.isNearestRank (h : x.IsNearest q) (hq : |q| < tooLarge) :
    IsNearestRank x.rank.val |q| := by
  have hlast : doubleRanks - 1 < doubleRanks := by decide +kernel
  have hbelow : ∀ other < doubleRanks, |q - x.exact| ≤ |(|q| - size other)| := by
    intro other hother
    obtain ⟨z, hrank, hsign⟩ := exists_sameSign q hother
    rw [← hrank, ← abs_sub_exact hsign]
    exact h.closest z
  -- past the largest double everything is farther away than the largest double
  have habove : ∀ other, doubleRanks ≤ other →
      |(|q| - size (doubleRanks - 1))| < |(|q| - size other)| := by
    intro other hother
    have hsize : size (doubleRanks - 1) < size other := size_strictMono (by omega)
    have hnext : size doubleRanks ≤ size other := size_strictMono.monotone hother
    rw [← not_le, abs_sub_le_abs_sub_iff' hsize]
    linarith [size_largest]
  rw [abs_sub_exact h.sign] at hbelow
  constructor
  · intro other
    rcases Nat.lt_or_ge other doubleRanks with hother | hother
    · exact hbelow other hother
    · exact (hbelow _ hlast).trans (habove other hother).le
  · intro other hne heq
    rcases Nat.lt_or_ge other doubleRanks with hother | hother
    · obtain ⟨z, hrank, hsign⟩ := exists_sameSign q hother
      refine h.even z (fun hexact => hne ?_) ?_
      · rw [← hrank]
        refine size_strictMono.injective ?_
        rw [← abs_exact, ← abs_exact, hexact]
      · rw [abs_sub_exact hsign, abs_sub_exact h.sign, hrank, heq]
    · exact absurd heq ((hbelow _ hlast).trans_lt (habove other hother)).ne'

theorem sign_exact_iff : 0 ≤ x.exact * q ↔ 0 ≤ (x.ordinal : ℚ) * q := by
  by_cases hzero : x.rank.val = 0
  · have hexact : x.exact = 0 := by rw [← abs_eq_zero, abs_exact, hzero, size_zero]
    have hordinal : x.ordinal = 0 := by rw [← Int.natAbs_eq_zero, natAbs_ordinal, hzero]
    simp [hexact, hordinal]
  · have hsize : 0 < size x.rank.val := size_zero ▸ size_strictMono (Nat.pos_of_ne_zero hzero)
    have hrank : (0 : ℚ) < x.rank.val := by exact_mod_cast Nat.pos_of_ne_zero hzero
    unfold exact Binary64.ordinal
    cases x.negative with
    | false => simp [mul_nonneg_iff_of_pos_left, hsize, hrank]
    | true => simp [mul_nonpos_iff, hsize.le, hrank.le, hsize.not_ge, hrank.not_ge]

/-- The nearest double to a number is the one whose signed rank is nearest. -/
theorem isNearest_iff (hq : |q| < tooLarge) : x.IsNearest q ↔ IsNearestOrdinal x.ordinal q := by
  constructor
  · intro h
    refine ⟨?_, sign_exact_iff.mp h.sign⟩
    rw [natAbs_ordinal]
    exact h.isNearestRank hq
  · intro h
    have hrank := h.rank
    rw [natAbs_ordinal] at hrank
    exact hrank.isNearest (sign_exact_iff.mpr h.sign)

/-- Nearest doubles are equal, up to the sign of zero. -/
theorem IsNearest.exact_unique (h : x.IsNearest q) (hother : y.IsNearest q)
    (hq : |q| < tooLarge) : x.exact = y.exact := by
  have hordinal := ((isNearest_iff hq).mp h).unique ((isNearest_iff hq).mp hother)
  rw [← valueOf_ordinal, ← valueOf_ordinal, hordinal]

/-- The doubles next to whole numbers up to `2 ^ 53` are these numbers. -/
theorem IsNearest.exact_eq_integer {n : Int} (h : x.IsNearest n)
    (hn : |n| ≤ 2 ^ 53) : x.exact = n := by
  have hsize : |(n : ℚ)| ≤ 2 ^ 53 := by exact_mod_cast hn
  have hsmall : |(n : ℚ)| < tooLarge := by
    linarith [two_pow_le_tooLarge]
  have hfew : n.natAbs ≤ 2 ^ 53 := by
    rw [Int.abs_eq_natAbs] at hn
    omega
  obtain ⟨rank, hrank⟩ := exists_size_eq hfew
  rw [Nat.cast_natAbs, Int.cast_abs] at hrank
  have hnearest := isNearestRank_size rank
  rw [hrank] at hnearest
  have habs : |x.exact| = |(n : ℚ)| := by
    rw [x.abs_exact, (h.isNearestRank hsmall).unique hnearest, hrank]
  rcases abs_eq_abs.mp habs with heq | heq
  · exact heq
  · have hsign := h.sign
    rw [heq] at hsign
    have hzero : (n : ℚ) = 0 := by nlinarith
    rw [heq, hzero, neg_zero]

end Binary64

/-! ## Decimal numerals -/

namespace Decimal

open Binary64

/-- The exact size of a numeral. -/
def magnitude (x : Decimal) : ℚ :=
  x.digits * 10 ^ x.exponent

/-- The exact value of a numeral. -/
def exact (x : Decimal) : ℚ :=
  if x.negative then -x.magnitude else x.magnitude

theorem magnitude_nonneg (x : Decimal) : 0 ≤ x.magnitude := by
  unfold magnitude
  positivity

theorem abs_exact (x : Decimal) : |x.exact| = x.magnitude := by
  unfold exact
  split
  · rw [abs_neg, abs_of_nonneg x.magnitude_nonneg]
  · exact abs_of_nonneg x.magnitude_nonneg

theorem two_pow_le_ten_pow {n k : Nat} (h : n ≤ 3 * k) : (2 : ℚ) ^ n ≤ 10 ^ k :=
  calc (2 : ℚ) ^ n ≤ 2 ^ (3 * k) := pow_le_pow_right₀ (by norm_num) h
    _ = (2 ^ 3) ^ k := pow_mul 2 3 k
    _ ≤ 10 ^ k := pow_le_pow_left₀ (by norm_num) (by norm_num) k

/-- Great exponents make a number too large, whatever its digits are. -/
theorem tooLarge_le_magnitude {x : Decimal} (hdigits : x.digits ≠ 0) (h : 400 ≤ x.exponent) :
    tooLarge ≤ x.magnitude := by
  have hone : (1 : ℚ) ≤ x.digits := by exact_mod_cast Nat.one_le_iff_ne_zero.mpr hdigits
  have hten : (10 : ℚ) ^ 400 ≤ 10 ^ x.exponent := by
    rw [← zpow_natCast]
    exact zpow_le_zpow_right₀ (by norm_num) h
  calc tooLarge ≤ 2 ^ 1024 := sub_le_self _ (by positivity)
    _ ≤ 10 ^ 400 := two_pow_le_ten_pow (by omega)
    _ ≤ 10 ^ x.exponent := hten
    _ = 1 * 10 ^ x.exponent := (one_mul _).symm
    _ ≤ x.magnitude := mul_le_mul_of_nonneg_right hone (by positivity)

/-- Small exponents make a number so small that the nearest double is zero. -/
theorem isNearestRank_zero_of_small {x : Decimal}
    (h : (x.digits.log2 : Int) + 1 + x.exponent < -400) : IsNearestRank 0 x.magnitude := by
  have hdigits : (x.digits : ℚ) ≤ 10 ^ ((x.digits.log2 : Int) + 1) := by
    have hlog : (x.digits : ℚ) ≤ 2 ^ (x.digits.log2 + 1) := by
      exact_mod_cast (Nat.lt_log2_self (n := x.digits)).le
    exact_mod_cast hlog.trans (two_pow_le_ten_pow (by omega))
  have hsmall : x.magnitude ≤ 10 ^ (-401 : Int) :=
    calc x.magnitude ≤ 10 ^ ((x.digits.log2 : Int) + 1) * 10 ^ x.exponent :=
          mul_le_mul_of_nonneg_right hdigits (by positivity)
      _ = 10 ^ ((x.digits.log2 : Int) + 1 + x.exponent) := (zpow_add₀ (by norm_num) _ _).symm
      _ ≤ 10 ^ (-401 : Int) := zpow_le_zpow_right₀ (by norm_num) (by omega)
  have hunit : 2 * (10 : ℚ) ^ (-401 : Int) ≤ size 1 := by
    have hone : units 1 = 1 := units_of_le (by omega)
    have hpow : (2 : ℚ) ^ 1075 ≤ 10 ^ 401 := two_pow_le_ten_pow (by omega)
    rw [size, hone, Nat.cast_one, le_div_iff₀ unitsPerOne_pos_rat, unitsPerOne_eq, Nat.cast_pow,
      Nat.cast_ofNat, zpow_neg, mul_right_comm, ← pow_succ']
    exact mul_inv_le_one_of_le₀ hpow (by positivity)
  refine isNearestRank_low (size_zero ▸ x.magnitude_nonneg) ?_ fun _ => rfl
  rw [size_zero, zero_add]
  linarith

/-- A decimal is a fraction of whole numbers, one of which is a power of ten. -/
theorem magnitude_eq_div (x : Decimal) : x.magnitude =
    ((x.digits * 10 ^ x.exponent.toNat : Nat) : ℚ) / ((10 ^ (-x.exponent).toNat : Nat) : ℚ) := by
  have hexponent : x.exponent = x.exponent.toNat - (-x.exponent).toNat :=
    (Int.toNat_sub_toNat_neg x.exponent).symm
  rw [magnitude]
  nth_rewrite 1 [hexponent]
  rw [zpow_sub₀ (by norm_num), zpow_natCast, zpow_natCast, ← mul_div_assoc]
  push_cast
  rfl

/-- The rank that is computed for a decimal is the nearest one; only exponents that make it too
large are left out. -/
theorem isNearestRank_nearestRank {x : Decimal} (h : x.digits = 0 ∨ x.exponent < 400) :
    IsNearestRank x.nearestRank x.magnitude := by
  unfold nearestRank
  split
  · next hzero =>
    have hmagnitude : x.magnitude = size 0 := by rw [magnitude, hzero, size_zero]; simp
    rw [hmagnitude]
    exact isNearestRank_size 0
  split
  · omega
  split
  · next hsmall => exact isNearestRank_zero_of_small hsmall
  · rw [magnitude_eq_div]
    exact Binary64.isNearestRank_nearestRank _ (Nat.pow_pos (by decide))

/-- A numeral that is too large for a double is read as none. -/
theorem toBinary64?_eq_none {x : Decimal} (h : tooLarge ≤ |x.exact|) : x.toBinary64? = none := by
  rw [abs_exact] at h
  refine dif_neg ?_
  by_cases hsmall : x.digits = 0 ∨ x.exponent < 400
  · rw [(isNearestRank_nearestRank hsmall).lt_doubleRanks_iff]
    exact not_lt.mpr h
  · have hrank : x.nearestRank = doubleRanks := by
      rw [not_or, not_lt] at hsmall
      rw [nearestRank, if_neg hsmall.1, if_pos hsmall.2]
    omega

/-- Any other numeral is read as the nearest double. -/
theorem exists_toBinary64? {x : Decimal} (h : |x.exact| < tooLarge) :
    ∃ y, x.toBinary64? = some y ∧ y.IsNearest x.exact := by
  rw [abs_exact] at h
  have hsmall : x.digits = 0 ∨ x.exponent < 400 := by
    by_contra hlarge
    rw [not_or, not_lt] at hlarge
    exact absurd h (not_lt.mpr (tooLarge_le_magnitude hlarge.1 hlarge.2))
  have hrank := isNearestRank_nearestRank hsmall
  have hlt : x.nearestRank < doubleRanks := hrank.lt_doubleRanks_iff.mpr h
  refine ⟨⟨x.negative, x.nearestRank, hlt⟩, dif_pos hlt, IsNearestRank.isNearest ?_ ?_⟩
  · rwa [abs_exact]
  · have hproduct : 0 ≤ size x.nearestRank * x.magnitude :=
      mul_nonneg (size_nonneg _) x.magnitude_nonneg
    unfold Binary64.exact exact
    split
    · rwa [neg_mul_neg]
    · exact hproduct

end Decimal

end Sift
