import Mathlib.Algebra.Order.Floor.Ring
import Mathlib.Data.List.TakeWhile
import Mathlib.Data.Nat.Digits.Lemmas
import Mathlib.Data.Rat.Floor
import Sift.Operator.Conditions
import Sift.Proofs.NearestDoubles

/-!
# Texts that are compared with whole numbers

A text that is compared with a column of whole numbers denotes the whole part of what is written
there, and nothing at all where that does not fit in 64 bits. A whole number that fits is read as it
is. Everything else is read as a double first: a fraction may be rounded up to the next whole number,
and a number past 64 bits becomes the greatest or the least there is.

The main statement says for which numerals the reading is right; where all digits together make no
more than `2 ^ 53` it always is.
-/

namespace Sift

/-! ## Numerals as they are written -/

/-- What may stand in front of the digits of a numeral. -/
inductive NumeralSign
  | absent
  | plus
  | minus
deriving DecidableEq

/-- The characters of a sign. -/
def NumeralSign.chars : NumeralSign → List Char
  | absent => []
  | plus => ['+']
  | minus => ['-']

/-- A numeral without an exponent: digits, and behind a point more digits if there are any. -/
structure PlainNumeral where
  sign : NumeralSign
  whole : List (Fin 10)
  fraction : List (Fin 10)
  whole_ne_nil : whole ≠ []

/-- The character of a digit. -/
def digitChar (d : Fin 10) : Char :=
  Nat.digitChar d.val

/-- The number that digits denote. -/
def number (digits : List (Fin 10)) : Nat :=
  Nat.ofDigits 10 (digits.reverse.map Fin.val)

/-- The whole number next to a fraction on the side of zero. -/
def truncated (q : ℚ) : Int :=
  if q < 0 then ⌈q⌉ else ⌊q⌋

/-- Whether a whole number fits in 64 bits with a sign. -/
def FitsInteger64 (n : Int) : Prop :=
  -2 ^ 63 ≤ n ∧ n < 2 ^ 63

instance (n : Int) : Decidable (FitsInteger64 n) :=
  inferInstanceAs (Decidable (_ ∧ _))

namespace PlainNumeral

/-- What stands behind the whole digits. -/
def pointAndFraction (numeral : PlainNumeral) : List Char :=
  if numeral.fraction = [] then [] else '.' :: numeral.fraction.map digitChar

/-- The characters of a numeral. -/
def chars (numeral : PlainNumeral) : List Char :=
  numeral.sign.chars ++ numeral.whole.map digitChar ++ numeral.pointAndFraction

/-- The size of what a numeral denotes. -/
def magnitude (numeral : PlainNumeral) : ℚ :=
  number numeral.whole + number numeral.fraction / 10 ^ numeral.fraction.length

/-- What a numeral denotes. -/
def value (numeral : PlainNumeral) : ℚ :=
  if numeral.sign = .minus then -numeral.magnitude else numeral.magnitude

/-- The whole part of what a numeral denotes, if it fits in 64 bits. -/
def integer64? (numeral : PlainNumeral) : Option Int :=
  if FitsInteger64 (truncated numeral.value) then some (truncated numeral.value) else none

/-- The reading of a numeral as a whole number is right. -/
inductive ReadExactly (numeral : PlainNumeral) : Prop
  /-- It has no fraction and fits in 64 bits. -/
  | whole : numeral.fraction = [] → FitsInteger64 (truncated numeral.value) → ReadExactly numeral
  /-- It is too large for a double, and so much the more for 64 bits. -/
  | huge : Binary64.tooLarge ≤ |numeral.value| → ReadExactly numeral
  /-- The nearest double, brought into 64 bits, has the same whole part. -/
  | rounded (x : Binary64) : x.IsNearest numeral.value →
      Coercion.clamp (truncated x.exact) = truncated numeral.value → ReadExactly numeral

end PlainNumeral

/-! ## Whole parts -/

theorem truncated_eq (q : ℚ) : truncated q = if q < 0 then -⌊|q|⌋ else ⌊|q|⌋ := by
  unfold truncated
  split
  · next hneg => rw [abs_of_neg hneg, Int.floor_neg, neg_neg]
  · next hpos => rw [abs_of_nonneg (not_lt.mp hpos)]

/-- From zero up, cutting the fraction off is rounding down. -/
theorem truncated_of_nonneg {q : ℚ} (h : 0 ≤ q) : truncated q = ⌊q⌋ :=
  if_neg (not_lt.mpr h)

/-- Cutting off does not look at the sign. -/
theorem truncated_neg (q : ℚ) : truncated (-q) = -truncated q := by
  unfold truncated
  rcases lt_trichotomy q 0 with hneg | rfl | hpos
  · rw [if_pos hneg, if_neg (by linarith), Int.floor_neg]
  · simp
  · rw [if_pos (by linarith), if_neg (by linarith), Int.ceil_neg]

/-- The size of what is left is the size rounded down. -/
theorem abs_truncated (q : ℚ) : |truncated q| = ⌊|q|⌋ := by
  have hfloor : 0 ≤ ⌊|q|⌋ := Int.floor_nonneg.mpr (abs_nonneg q)
  rw [truncated_eq]
  split
  · rw [abs_neg, abs_of_nonneg hfloor]
  · exact abs_of_nonneg hfloor

/-- Numbers that are not on opposite sides of zero have the same whole part if their sizes do. -/
theorem truncated_eq_of_floor_eq {q r : ℚ} (hfloor : ⌊|q|⌋ = ⌊|r|⌋) (hsign : 0 ≤ q * r) :
    truncated q = truncated r := by
  rw [truncated_eq, truncated_eq, hfloor]
  rcases lt_or_ge q 0 with hq | hq
  · rcases lt_or_ge r 0 with hr | hr
    · rw [if_pos hq, if_pos hr]
    · have hzero : r = 0 := by nlinarith
      simp [hzero]
  · rcases lt_or_ge r 0 with hr | hr
    · have hzero : q = 0 := by nlinarith
      rw [hzero, abs_zero, Int.floor_zero] at hfloor
      rw [← hfloor]
      simp
    · rw [if_neg (not_lt.mpr hq), if_neg (not_lt.mpr hr)]

/-- The truncation of a double, which is computed by shifts of its rank, is that of the number that
the double stands for. -/
theorem Binary64.truncate_eq (x : Binary64) : x.truncate = truncated x.exact := by
  have hsize : truncated (size x.rank.val) = (units x.rank.val / unitsPerOne : Nat) := by
    rw [truncated_of_nonneg (size_nonneg _), size, Rat.floor_natCast_div_natCast,
      Int.natCast_ediv]
  unfold Binary64.truncate exact
  cases x.negative with
  | false => exact hsize.symm
  | true =>
    show -((units x.rank.val / unitsPerOne : Nat) : Int) = truncated (-size x.rank.val)
    rw [truncated_neg, hsize]

namespace Binary64

/-- The first ranks are those of the doubles below one. -/
theorem size_lt_one {rank : Nat} (h : rank ≤ 2 ^ 53) : size rank < 1 := by
  have hunits : units rank < unitsPerOne := by
    have hpow : 2 ^ 53 < unitsPerOne := by decide +kernel
    rw [units_of_le h]
    exact lt_of_le_of_lt h hpow
  rw [size, div_lt_one unitsPerOne_pos_rat]
  exact_mod_cast hunits

/-- A number is only rounded up in the upper half between two neighbours. -/
theorem IsNearestRank.upper_half {low : Nat} {a : ℚ} (h : IsNearestRank (low + 1) a) :
    size low + size (low + 1) ≤ 2 * a :=
  (abs_sub_le_abs_sub_iff' (size_strictMono low.lt_succ_self)).mp (h.closest low)

/-- Up to `2 ^ 53` digits in all, no fraction stands in the upper half between a double and the next
one if that is a whole number. -/
theorem floor_size_eq {rank digits parts : Nat} (hparts : 0 < parts) (hdigits : digits ≤ 2 ^ 53)
    (h : IsNearestRank rank (digits / parts)) : ⌊size rank⌋ = ⌊(digits / parts : ℚ)⌋ := by
  have hpos : (0 : ℚ) < parts := by exact_mod_cast hparts
  have hfew : (digits : ℚ) ≤ 2 ^ 53 := by exact_mod_cast hdigits
  have hwhole : digits / parts ≤ 2 ^ 53 := (Nat.div_le_self _ _).trans hdigits
  have hnext : (digits : ℚ) + 1 ≤ ((digits / parts : Nat) + 1) * parts := by
    exact_mod_cast Nat.lt_mul_of_div_lt (Nat.lt_succ_self (digits / parts)) hparts
  rw [Rat.floor_natCast_div_natCast, Int.floor_eq_iff]
  constructor
  · obtain ⟨least, hleast⟩ := exists_size_eq hwhole
    have hle : size least ≤ digits / parts := by
      rw [hleast, le_div_iff₀ hpos]
      exact_mod_cast Nat.div_mul_le_self digits parts
    have hrank := (isNearestRank_size least).monotone h hle
    have hsize := size_strictMono.monotone hrank
    rw [hleast] at hsize
    exact_mod_cast hsize
  · by_contra hreached
    have hreached : ((digits / parts : Nat) : ℚ) + 1 ≤ size rank := by
      exact_mod_cast not_lt.mp hreached
    have hlarge : 2 ^ 53 < rank := by
      by_contra hsmall
      have hone := size_lt_one (not_lt.mp hsmall)
      have hnonneg : (0 : ℚ) ≤ (digits / parts : Nat) := Nat.cast_nonneg _
      linarith
    obtain ⟨low, rfl⟩ : ∃ low, rank = low + 1 := ⟨rank - 1, by omega⟩
    -- in parts, the next double is at least one behind the digits, and so the last one is below them
    have hhalf := mul_le_mul_of_nonneg_right h.upper_half hpos.le
    have hnext := hnext.trans (mul_le_mul_of_nonneg_right hreached hpos.le)
    have hstep := mul_le_mul_of_nonneg_right (size_succ_sub_le (by omega : 2 ^ 52 ≤ low)) hpos.le
    rw [mul_assoc, div_mul_cancel₀ _ hpos.ne'] at hhalf
    linarith

end Binary64

/-- The two bounds that are tested are those of 64 bits with a sign. -/
theorem fitsInteger64_iff (n : Int) :
    (Coercion.minInteger ≤ n && n ≤ Coercion.maxInteger) = true ↔ FitsInteger64 n := by
  have hmin : Coercion.minInteger = -2 ^ 63 := by decide
  have hmax : Coercion.maxInteger = 2 ^ 63 - 1 := by decide
  rw [Bool.and_eq_true, decide_eq_true_eq, decide_eq_true_eq, hmin, hmax, FitsInteger64]
  omega

/-- What fits is left as it is. -/
theorem clamp_of_fits {n : Int} (h : FitsInteger64 n) : Coercion.clamp n = n := by
  have hmin : Coercion.minInteger = -2 ^ 63 := by decide
  have hmax : Coercion.maxInteger = 2 ^ 63 - 1 := by decide
  unfold FitsInteger64 at h
  unfold Coercion.clamp
  omega

/-- What is clamped fits, whatever it was. -/
theorem fitsInteger64_clamp (n : Int) : FitsInteger64 (Coercion.clamp n) := by
  have hmin : Coercion.minInteger = -2 ^ 63 := by decide
  have hmax : Coercion.maxInteger = 2 ^ 63 - 1 := by decide
  unfold Coercion.clamp FitsInteger64
  omega

/-- What is too large for a double is too large for 64 bits. -/
theorem not_fitsInteger64_of_tooLarge {q : ℚ} (h : Binary64.tooLarge ≤ |q|) :
    ¬FitsInteger64 (truncated q) := by
  intro hfits
  have hlarge : (2 : ℚ) ^ 64 ≤ |q| := Binary64.two_pow_le_tooLarge.trans h
  have hfloor : 2 ^ 64 ≤ ⌊|q|⌋ := Int.le_floor.mpr (by exact_mod_cast hlarge)
  obtain ⟨hmin, hmax⟩ := hfits
  have habs : |truncated q| ≤ 2 ^ 63 := abs_le.mpr ⟨hmin, hmax.le⟩
  rw [abs_truncated] at habs
  omega

/-! ## Digits -/

theorem isDigit_digitChar (d : Fin 10) : Numeral.isDigit (digitChar d) = true := by
  revert d
  decide

theorem digitValue_digitChar (d : Fin 10) : Numeral.digitValue (digitChar d) = d.val := by
  revert d
  decide

/-- Written digits are digits. -/
theorem isDigit_of_mem_map {digits : List (Fin 10)} {c : Char} (h : c ∈ digits.map digitChar) :
    Numeral.isDigit c = true := by
  obtain ⟨d, -, rfl⟩ := List.mem_map.mp h
  exact isDigit_digitChar d

/-- In front of other digits a number counts as many powers of ten as there are of them. -/
theorem number_append (first second : List (Fin 10)) :
    number (first ++ second) = number first * 10 ^ second.length + number second := by
  unfold number
  rw [List.reverse_append, List.map_append, Nat.ofDigits_append, List.length_map,
    List.length_reverse]
  ring

/-- A number is below the power of ten that has one more place than it has digits. -/
theorem number_lt (digits : List (Fin 10)) : number digits < 10 ^ digits.length := by
  have hdigits : ∀ d ∈ digits.reverse.map Fin.val, d < 10 := fun d hd => by
    obtain ⟨digit, -, rfl⟩ := List.mem_map.mp hd
    exact digit.isLt
  have h := Nat.ofDigits_lt_base_pow_length (by decide) hdigits
  rwa [List.length_map, List.length_reverse] at h

/-- Reading written digits gives their number; leading zeros add nothing. -/
theorem value_map_digitChar (digits : List (Fin 10)) :
    Numeral.value (digits.map digitChar) = number digits := by
  induction digits using List.reverseRecOn with
  | nil => rfl
  | append_singleton digits d ih =>
    have hlast : number [d] = d.val := by simp [number]
    rw [number_append, hlast, ← ih, Numeral.value, List.map_append, List.foldl_append]
    show 10 * Numeral.value (digits.map digitChar) + Numeral.digitValue (digitChar d) = _
    rw [digitValue_digitChar, List.length_singleton, pow_one, Nat.mul_comm]

namespace PlainNumeral

variable {numeral : PlainNumeral}

/-! ## Reading a numeral -/

/-- The sign of a written numeral is found, and a numeral without one loses no character. -/
theorem splitSign_chars (numeral : PlainNumeral) : Numeral.splitSign numeral.chars =
    (decide (numeral.sign = .minus), numeral.whole.map digitChar ++ numeral.pointAndFraction) := by
  unfold chars
  rw [List.append_assoc]
  cases hsign : numeral.sign with
  | minus => rfl
  | plus => rfl
  | absent =>
    obtain ⟨d, rest, hwhole⟩ := List.exists_cons_of_ne_nil numeral.whole_ne_nil
    rw [hwhole]
    have hdigit := isDigit_digitChar d
    unfold Numeral.splitSign
    simp only [NumeralSign.chars, List.nil_append, List.map_cons, List.cons_append]
    split
    · next heq =>
      rw [(List.cons.inj heq).1] at hdigit
      cases hdigit
    · next heq =>
      rw [(List.cons.inj heq).1] at hdigit
      cases hdigit
    · rfl

/-- A point or the end follows the whole part, so its run of digits ends there. -/
theorem dropWhile_pointAndFraction (numeral : PlainNumeral) :
    numeral.pointAndFraction.takeWhile Numeral.isDigit = [] ∧
      numeral.pointAndFraction.dropWhile Numeral.isDigit = numeral.pointAndFraction := by
  have hpoint : Numeral.isDigit '.' = false := by decide
  unfold pointAndFraction
  split <;> simp [hpoint]

/-- The whole part of a written numeral is the run of digits in front. -/
theorem span_whole (numeral : PlainNumeral) :
    (numeral.whole.map digitChar ++ numeral.pointAndFraction).span Numeral.isDigit =
      (numeral.whole.map digitChar, numeral.pointAndFraction) := by
  have hdigits : ∀ c ∈ numeral.whole.map digitChar, Numeral.isDigit c = true :=
    fun c => isDigit_of_mem_map
  obtain ⟨htake, hdrop⟩ := numeral.dropWhile_pointAndFraction
  rw [List.span_eq_takeWhile_dropWhile, List.takeWhile_append_of_pos hdigits,
    List.dropWhile_append_of_pos hdigits, htake, hdrop, List.append_nil]

/-- The fraction is what stands behind the point, and nothing follows it. -/
theorem splitFraction_pointAndFraction (numeral : PlainNumeral) :
    Decimal.splitFraction numeral.pointAndFraction = (numeral.fraction.map digitChar, []) := by
  unfold pointAndFraction
  split
  · next hnone => rw [hnone]; rfl
  · have hdigits : ∀ c ∈ numeral.fraction.map digitChar, Numeral.isDigit c = true :=
      fun c => isDigit_of_mem_map
    rw [Decimal.splitFraction, List.span_eq_takeWhile_dropWhile,
      List.takeWhile_eq_self_iff.mpr hdigits, List.dropWhile_eq_nil_iff.mpr hdigits]

/-- The numeral with all its digits in one number. -/
def decimal (numeral : PlainNumeral) : Decimal where
  negative := decide (numeral.sign = .minus)
  digits := number (numeral.whole ++ numeral.fraction)
  exponent := -(numeral.fraction.length : Int)

/-- Reading a written numeral gives its decimal, with all digits kept. -/
theorem ofChars?_chars (numeral : PlainNumeral) :
    Decimal.ofChars? numeral.chars = some numeral.decimal := by
  have hne : (numeral.whole.map digitChar).isEmpty = false := by
    simp [numeral.whole_ne_nil]
  simp only [Decimal.ofChars?, splitSign_chars, span_whole, splitFraction_pointAndFraction, hne,
    Bool.false_and, Bool.false_eq_true, if_false, Decimal.exponent?, Option.map_some]
  rw [← List.map_append, value_map_digitChar, List.length_map, Int.zero_sub]
  rfl

theorem magnitude_eq_div (numeral : PlainNumeral) : numeral.magnitude =
    number (numeral.whole ++ numeral.fraction) / (10 ^ numeral.fraction.length : Nat) := by
  have hten : (10 : ℚ) ^ numeral.fraction.length ≠ 0 := by positivity
  rw [magnitude, number_append]
  push_cast
  field_simp

/-- The decimal of a numeral has the numeral's size, though it counts in powers of ten. -/
theorem magnitude_decimal (numeral : PlainNumeral) :
    numeral.decimal.magnitude = numeral.magnitude := by
  rw [magnitude_eq_div, Decimal.magnitude, decimal, zpow_neg, zpow_natCast, div_eq_mul_inv,
    Nat.cast_pow, Nat.cast_ofNat]

/-- The decimal of a numeral stands for its value. -/
theorem exact_decimal (numeral : PlainNumeral) : numeral.decimal.exact = numeral.value := by
  unfold Decimal.exact value
  rw [magnitude_decimal]
  simp only [decimal, decide_eq_true_eq]

/-! ## The whole part of a numeral -/

theorem magnitude_nonneg (numeral : PlainNumeral) : 0 ≤ numeral.magnitude := by
  unfold magnitude
  positivity

/-- The whole part of a numeral is what the digits in front of the point say: those behind it stay
below one. -/
theorem floor_magnitude (numeral : PlainNumeral) : ⌊numeral.magnitude⌋ = number numeral.whole := by
  have hten : (0 : ℚ) < 10 ^ numeral.fraction.length := by positivity
  have hdigits : (number numeral.fraction : ℚ) < 10 ^ numeral.fraction.length := by
    exact_mod_cast number_lt numeral.fraction
  have hfraction : (number numeral.fraction : ℚ) / 10 ^ numeral.fraction.length < 1 :=
    (div_lt_one hten).mpr hdigits
  rw [Int.floor_eq_iff, magnitude, Int.cast_natCast]
  constructor
  · exact le_add_of_nonneg_right (by positivity)
  · linarith

theorem abs_value (numeral : PlainNumeral) : |numeral.value| = numeral.magnitude := by
  unfold value
  split
  · rw [abs_neg, abs_of_nonneg numeral.magnitude_nonneg]
  · exact abs_of_nonneg numeral.magnitude_nonneg

/-- Cutting the fraction off a numeral leaves its sign and its whole part. -/
theorem truncated_value (numeral : PlainNumeral) : truncated numeral.value =
    if numeral.sign = .minus then -(number numeral.whole : Int) else number numeral.whole := by
  have hwhole : truncated numeral.magnitude = number numeral.whole := by
    rw [truncated_of_nonneg numeral.magnitude_nonneg, floor_magnitude]
  unfold value
  split
  · rw [truncated_neg, hwhole]
  · exact hwhole

/-- A numeral is read as a whole number if it has no digit behind the point. -/
theorem integer?_chars (numeral : PlainNumeral) : Numeral.integer? numeral.chars =
    if numeral.fraction = [] then some (truncated numeral.value) else none := by
  have hne : (numeral.whole.map digitChar ++ numeral.pointAndFraction).isEmpty = false := by
    simp [numeral.whole_ne_nil]
  simp only [Numeral.integer?, splitSign_chars, hne, Bool.false_or, decide_eq_true_eq,
    truncated_value]
  by_cases hfraction : numeral.fraction = []
  · have hdigits : numeral.whole.map digitChar ++ numeral.pointAndFraction =
        numeral.whole.map digitChar := by
      rw [pointAndFraction, if_pos hfraction, List.append_nil]
    have hall : (numeral.whole.map digitChar).all Numeral.isDigit = true :=
      List.all_eq_true.mpr fun c => isDigit_of_mem_map
    rw [hdigits, hall, value_map_digitChar, if_pos hfraction, Bool.not_true, if_neg (by decide)]
    split <;> rfl
  · have hpoint : Numeral.isDigit '.' = false := by decide
    have hall : (numeral.whole.map digitChar ++ numeral.pointAndFraction).all Numeral.isDigit =
        false := by
      rw [pointAndFraction, if_neg hfraction, List.all_append, List.all_cons, hpoint,
        Bool.false_and, Bool.and_false]
    rw [hall, if_neg hfraction]
    rfl

/-- A numeral that is a whole number of 64 bits is read as it is, and any other one is read as a
double. -/
theorem coercion_chars (numeral : PlainNumeral) : Coercion.integer? numeral.chars =
    if numeral.fraction = [] ∧ FitsInteger64 (truncated numeral.value) then
      some (truncated numeral.value)
    else numeral.decimal.toBinary64?.map fun x => Coercion.clamp (truncated x.exact) := by
  have hfloat : Coercion.float? numeral.chars = numeral.decimal.toBinary64? := by
    rw [Coercion.float?, ofChars?_chars, Option.bind_some]
  unfold Coercion.integer?
  rw [integer?_chars, hfloat]
  simp only [Binary64.truncate_eq]
  by_cases hfraction : numeral.fraction = []
  · have hrange := fitsInteger64_iff (truncated numeral.value)
    rw [if_pos hfraction, Option.filter_some]
    by_cases hfits : FitsInteger64 (truncated numeral.value)
    · rw [if_pos (hrange.mpr hfits), if_pos ⟨hfraction, hfits⟩]
    · rw [if_neg (mt hrange.mp hfits), if_neg fun h => hfits h.2]
  · rw [if_neg hfraction, if_neg fun h => hfraction h.1, Option.filter_none]

/-! ## When the reading is right -/

/-- What a numeral should give, in terms of its own digits. -/
theorem integer64?_eq (numeral : PlainNumeral) : numeral.integer64? =
    let n : Int := if numeral.sign = .minus then -(number numeral.whole : Int)
      else number numeral.whole
    if FitsInteger64 n then some n else none := by
  unfold integer64?
  rw [truncated_value]

/-- A numeral should give the whole part of its value, if that fits. -/
theorem integer64?_eq_some_iff {n : Int} :
    numeral.integer64? = some n ↔ FitsInteger64 n ∧ n = truncated numeral.value := by
  unfold integer64?
  split <;> grind

/-- Coercion gives what it should exactly for the numerals that are read exactly. Whole numbers that
fit are read as such; all others go through the nearest double. -/
theorem coercion_eq_iff (numeral : PlainNumeral) :
    Coercion.integer? numeral.chars = numeral.integer64? ↔ numeral.ReadExactly := by
  rw [coercion_chars]
  by_cases hwhole : numeral.fraction = [] ∧ FitsInteger64 (truncated numeral.value)
  · -- read as a whole number
    rw [if_pos hwhole, integer64?, if_pos hwhole.2]
    exact iff_of_true rfl (.whole hwhole.1 hwhole.2)
  rw [if_neg hwhole]
  rcases le_or_gt Binary64.tooLarge |numeral.value| with hlarge | hsmall
  · -- too large for a double, so nothing is read, and nothing fits
    rw [Decimal.toBinary64?_eq_none (numeral.exact_decimal ▸ hlarge), integer64?,
      if_neg (not_fitsInteger64_of_tooLarge hlarge)]
    exact iff_of_true rfl (.huge hlarge)
  · -- read through the nearest double, of which there is only one up to the sign of zero
    obtain ⟨x, hx, hnearest⟩ := Decimal.exists_toBinary64? (numeral.exact_decimal ▸ hsmall)
    rw [exact_decimal] at hnearest
    rw [hx, Option.map_some, eq_comm, integer64?_eq_some_iff]
    constructor
    · rintro ⟨-, heq⟩
      exact .rounded x hnearest heq
    · intro hread
      cases hread with
      | whole hfraction hfits => exact absurd ⟨hfraction, hfits⟩ hwhole
      | huge hlarge => exact absurd hsmall (not_lt.mpr hlarge)
      | rounded y hy heq =>
        rw [hy.exact_unique hnearest hsmall] at heq
        exact ⟨fitsInteger64_clamp _, heq⟩

/-- Without digits behind the point, what does not fit must be too large for a double. -/
theorem readExactly_of_fraction_eq_nil (h : numeral.fraction = []) : numeral.ReadExactly ↔
    FitsInteger64 (truncated numeral.value) ∨ Binary64.tooLarge ≤ |numeral.value| := by
  constructor
  · intro hread
    cases hread with
    | whole _ hfits => exact Or.inl hfits
    | huge hlarge => exact Or.inr hlarge
    | rounded x _ heq => exact Or.inl (heq ▸ fitsInteger64_clamp _)
  · rintro (hfits | hlarge)
    · exact .whole h hfits
    · exact .huge hlarge

/-- Numerals with few digits are read exactly, as a double can hold them, point and all, without
losing the whole part. -/
theorem readExactly_of_few_digits (h : number (numeral.whole ++ numeral.fraction) ≤ 2 ^ 53) :
    numeral.ReadExactly := by
  have hparts : 0 < 10 ^ numeral.fraction.length := by positivity
  have habs := numeral.abs_value.trans numeral.magnitude_eq_div
  have hle : |numeral.value| ≤ 2 ^ 53 := by
    have hone : (1 : ℚ) ≤ (10 ^ numeral.fraction.length : Nat) := by exact_mod_cast hparts
    rw [habs]
    exact (div_le_self (Nat.cast_nonneg _) hone).trans (by exact_mod_cast h)
  have hsmall : |numeral.value| < Binary64.tooLarge := by
    linarith [Binary64.two_pow_le_tooLarge]
  obtain ⟨x, -, hnearest⟩ := Decimal.exists_toBinary64? (numeral.exact_decimal ▸ hsmall)
  rw [exact_decimal] at hnearest
  -- rounding to the double does not cross a whole number
  have hfloor : ⌊|x.exact|⌋ = ⌊|numeral.value|⌋ := by
    have hrank := hnearest.isNearestRank hsmall
    rw [habs] at hrank ⊢
    rw [x.abs_exact]
    exact Binary64.floor_size_eq hparts h hrank
  have hfits : FitsInteger64 (truncated numeral.value) := by
    have hfloor : ⌊|numeral.value|⌋ ≤ 2 ^ 53 := Int.floor_le_iff.mpr (by push_cast; linarith)
    rw [← abs_truncated, abs_le] at hfloor
    unfold FitsInteger64
    omega
  refine .rounded x hnearest ?_
  rw [truncated_eq_of_floor_eq hfloor hnearest.sign, clamp_of_fits hfits]

end PlainNumeral

/-- Coercing a text is reading what is left of it without blanks around. -/
theorem Coercion.ofJson?_of_trimChars {text : String} {chars : List Char}
    (h : Text.trimChars text.toList = chars) : Coercion.ofJson? .integer (.string text) =
      (Coercion.integer? chars).map fun n => .number (.integer n) := by
  rw [← h]
  rfl

/-- A text is compared with whole numbers as what it denotes exactly if its numeral is read
exactly: without a fraction if it fits in 64 bits or is past all doubles, and always if all its
digits make no more than `2 ^ 53`. -/
theorem Coercion.ofJson?_numeral {numeral : PlainNumeral} {text : String}
    (htext : Text.trimChars text.toList = numeral.chars) :
    (Coercion.ofJson? .integer (.string text) =
        numeral.integer64?.map (fun n => .number (.integer n)) ↔ numeral.ReadExactly) ∧
    (∀ lhs, equality lhs (some .integer) (.string text) =
        numeral.integer64?.elim .impossible (fun n => .compares lhs .equal (.number (.integer n))) ↔
      numeral.ReadExactly) ∧
    (numeral.fraction = [] → (numeral.ReadExactly ↔
      FitsInteger64 (truncated numeral.value) ∨ Binary64.tooLarge ≤ |numeral.value|)) ∧
    (number (numeral.whole ++ numeral.fraction) ≤ 2 ^ 53 → numeral.ReadExactly) := by
  have hvalue := Coercion.ofJson?_of_trimChars htext
  refine ⟨?_, fun lhs => ?_, PlainNumeral.readExactly_of_fraction_eq_nil,
    PlainNumeral.readExactly_of_few_digits⟩
  · rw [hvalue, ← numeral.coercion_eq_iff]
    cases Coercion.integer? numeral.chars <;> cases numeral.integer64? <;> simp
  · have hcondition : equality lhs (some .integer) (.string text) =
        (Coercion.integer? numeral.chars).elim .impossible
          fun n => .compares lhs .equal (.number (.integer n)) := by
      simp only [equality, Json.isNull, Bool.false_eq_true, if_false, hvalue]
      cases Coercion.integer? numeral.chars <;> rfl
    rw [hcondition, ← numeral.coercion_eq_iff]
    cases Coercion.integer? numeral.chars <;> cases numeral.integer64? <;> simp

/-- `-0007.9`. -/
def paddedNumeral : PlainNumeral :=
  ⟨.minus, [0, 0, 0, 7], [9], by decide⟩

/-- `9223372036854775808`, the least whole number that does not fit in 64 bits. -/
def overflowingNumeral : PlainNumeral :=
  ⟨.absent, [9, 2, 2, 3, 3, 7, 2, 0, 3, 6, 8, 5, 4, 7, 7, 5, 8, 0, 8], [], by decide⟩

/-- `9007199254740993.5`, which lies between two doubles and is as near to the upper one. -/
def middleNumeral : PlainNumeral :=
  ⟨.absent, [9, 0, 0, 7, 1, 9, 9, 2, 5, 4, 7, 4, 0, 9, 9, 3], [5], by decide⟩

theorem Coercion.ofJson?_numeral_padded :
    Text.trimChars " -0007.9 ".toList = paddedNumeral.chars ∧
    number (paddedNumeral.whole ++ paddedNumeral.fraction) ≤ 2 ^ 53 ∧
    Coercion.ofJson? .integer (.string " -0007.9 ") = some (.number (.integer (-7))) ∧
    ∀ lhs, equality lhs (some .integer) (.string " -0007.9 ") =
      .compares lhs .equal (.number (.integer (-7))) := by
  have htext : Text.trimChars " -0007.9 ".toList = paddedNumeral.chars := by decide
  have hfew : number (paddedNumeral.whole ++ paddedNumeral.fraction) ≤ 2 ^ 53 := by decide
  have hvalue : paddedNumeral.integer64? = some (-7) :=
    paddedNumeral.integer64?_eq.trans (by decide)
  obtain ⟨hcoerced, hcondition, -, hread⟩ := Coercion.ofJson?_numeral htext
  refine ⟨htext, hfew, ?_, fun lhs => ?_⟩
  · rw [(hcoerced.mpr (hread hfew)), hvalue]
    rfl
  · rw [(hcondition lhs).mpr (hread hfew), hvalue]
    rfl

/-- A whole number past 64 bits is taken for the greatest one, and a fraction is rounded up. -/
theorem Coercion.ofJson?_inexact :
    Text.trimChars "9223372036854775808".toList = overflowingNumeral.chars ∧
    overflowingNumeral.integer64? = none ∧
    Coercion.ofJson? .integer (.string "9223372036854775808") =
      some (.number (.integer 9223372036854775807)) ∧
    Text.trimChars "9007199254740993.5".toList = middleNumeral.chars ∧
    middleNumeral.integer64? = some 9007199254740993 ∧
    Coercion.ofJson? .integer (.string "9007199254740993.5") =
      some (.number (.integer 9007199254740994)) := by
  have hoverflowing : Text.trimChars "9223372036854775808".toList = overflowingNumeral.chars := by
    decide
  have hmiddle : Text.trimChars "9007199254740993.5".toList = middleNumeral.chars := by decide
  have hgreatest : Coercion.integer? overflowingNumeral.chars = some 9223372036854775807 := by
    decide +kernel
  have hupper : Coercion.integer? middleNumeral.chars = some 9007199254740994 := by
    decide +kernel
  refine ⟨hoverflowing, overflowingNumeral.integer64?_eq.trans (by decide), ?_, hmiddle,
    middleNumeral.integer64?_eq.trans (by decide), ?_⟩
  · rw [Coercion.ofJson?_of_trimChars hoverflowing, hgreatest]
    rfl
  · rw [Coercion.ofJson?_of_trimChars hmiddle, hupper]
    rfl

end Sift
