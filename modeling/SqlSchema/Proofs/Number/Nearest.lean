import Mathlib.Order.Monotone.Basic
import SqlSchema.Proofs.Number.Overflow

/-! The nearest binary number. The absolute values of binary numbers, in the order of their magnitudes, go up by steps that
never get narrower. A number is rounded to a magnitude exactly if it lies between the middles of the steps on its two sides,
where a middle itself belongs to the even magnitude. -/
namespace SqlSchema
namespace Binary64

/-- The absolute value of the numbers that have the magnitude. -/
def place (k : Nat) : ℚ := size ⟨false, k⟩

theorem size_eq_place (x : Binary64) : x.size = place x.magnitude := rfl

/-- Numbers of one order of magnitude, and the two orders that have the lowest last bit, lie on a straight line, together
with the number behind them. -/
theorem place_line (order j : Nat) (top : j ≤ 2 ^ 53) (bottom : order = 0 ∨ 2 ^ 52 ≤ j) :
    place (order * 2 ^ 52 + j) = j * 2 ^ ((order : ℤ) - 1074) := by
  have power : twoPow 52 = 2 ^ 52 := rfl
  simp only [place, size, significand, exponent, power]
  rcases Nat.lt_or_ge j (2 ^ 52) with low | high
  · obtain rfl : order = 0 := by omega
    have quotient : (0 * 2 ^ 52 + j) / 2 ^ 52 = 0 := by omega
    rw [quotient, if_pos rfl, zero_mul, zero_add]
    norm_num
  · rcases top.lt_or_eq with less | rfl
    · have quotient : (order * 2 ^ 52 + j) / 2 ^ 52 = order + 1 := by omega
      have rest : 2 ^ 52 + (order * 2 ^ 52 + j) % 2 ^ 52 = j := by omega
      have last : ((max 1 (order + 1) : ℕ) : ℤ) - 1075 = (order : ℤ) - 1074 := by omega
      rw [quotient, if_neg (Nat.succ_ne_zero order), rest, last]
    · have quotient : (order * 2 ^ 52 + 2 ^ 53) / 2 ^ 52 = order + 2 := by omega
      have rest : 2 ^ 52 + (order * 2 ^ 52 + 2 ^ 53) % 2 ^ 52 = 2 ^ 52 := by omega
      have last : ((max 1 (order + 2) : ℕ) : ℤ) - 1075 = (order : ℤ) - 1074 + 1 := by omega
      rw [quotient, if_neg (Nat.succ_ne_zero _), rest, last, zpow_add_one₀ two_ne_zero]
      push_cast
      ring

theorem place_zero : place 0 = 0 := by
  rw [show 0 = 0 * 2 ^ 52 + 0 from rfl, place_line 0 0 (by norm_num) (.inl rfl), Nat.cast_zero, zero_mul]

/-- Every magnitude stands on a line, with the next one on the same line. -/
theorem exists_line (k : Nat) : ∃ order j : Nat, k = order * 2 ^ 52 + j ∧ j < 2 ^ 53 ∧ (order = 0 ∨ 2 ^ 52 ≤ j) :=
  ⟨k / 2 ^ 52 - 1, k - (k / 2 ^ 52 - 1) * 2 ^ 52, by omega, by omega, by omega⟩

theorem place_strictMono : StrictMono place := by
  refine strictMono_nat_of_lt_succ fun k => ?_
  obtain ⟨order, j, rfl, top, bottom⟩ := exists_line k
  have unit : (0 : ℚ) < 2 ^ ((order : ℤ) - 1074) := zpow_pos two_pos _
  rw [Nat.add_assoc, place_line order j top.le bottom, place_line order (j + 1) top (by omega)]
  gcongr
  exact Nat.lt_succ_self j

theorem place_nonneg (k : Nat) : 0 ≤ place k := place_zero ▸ place_strictMono.monotone (Nat.zero_le k)

/-- The middle of the step that leads to a magnitude. -/
def middle (k : Nat) : ℚ := (place (k - 1) + place k) / 2

theorem middle_le_middle {j k : Nat} (le : j ≤ k) : middle j ≤ middle k := by
  have below := place_strictMono.monotone (Nat.sub_le_sub_right le 1)
  have here := place_strictMono.monotone le
  unfold middle
  linarith

theorem middle_lt_middle {j k : Nat} (less : j < k) : middle j < middle k := by
  have below := place_strictMono.monotone (Nat.sub_le_sub_right less.le 1)
  have here := place_strictMono less
  unfold middle
  linarith

theorem middle_lt_place {k : Nat} (some : 0 < k) : middle k < place k := by
  have below := place_strictMono (Nat.sub_one_lt some.ne')
  unfold middle
  linarith

theorem place_le_middle (k : Nat) : place k ≤ middle (k + 1) := by
  have above := place_strictMono k.lt_succ_self
  rw [middle, Nat.add_sub_cancel]
  linarith

/-- On a line the middles lie half a step below the numbers. -/
theorem middle_line (order j : Nat) (top : j + 1 ≤ 2 ^ 53) (bottom : order = 0 ∨ 2 ^ 52 ≤ j) :
    middle (order * 2 ^ 52 + (j + 1)) = (j + 1 - 1 / 2) * 2 ^ ((order : ℤ) - 1074) := by
  have before : order * 2 ^ 52 + (j + 1) - 1 = order * 2 ^ 52 + j := by omega
  rw [middle, before, place_line order j (by omega) bottom, place_line order (j + 1) top (by omega)]
  push_cast
  ring

theorem middle_zero : middle 0 = 0 := by
  rw [middle, Nat.zero_sub, place_zero]
  norm_num

/-- A fraction is rounded to the magnitude or to a greater one. -/
def Reaches (v : ℚ) (k : Nat) : Prop := middle k < v ∨ middle k = v ∧ k % 2 = 0

theorem Reaches.le {v : ℚ} {k : Nat} (reaches : Reaches v k) : middle k ≤ v := by
  rcases reaches with less | ⟨same, -⟩
  · exact less.le
  · exact same.le

theorem le_of_not_reaches {v : ℚ} {k : Nat} (short : ¬ Reaches v k) : v ≤ middle k :=
  not_lt.1 fun less => short (.inl less)

theorem Reaches.mono {v : ℚ} {j k : Nat} (reaches : Reaches v k) (le : j ≤ k) : Reaches v j := by
  rcases le.lt_or_eq with less | rfl
  · exact .inl ((middle_lt_middle less).trans_le reaches.le)
  · exact reaches

theorem reaches_zero {v : ℚ} (nonneg : 0 ≤ v) : Reaches v 0 := by
  rcases nonneg.lt_or_eq with positive | zero
  · exact .inl (middle_zero.trans_lt positive)
  · exact .inr ⟨middle_zero.trans zero, rfl⟩

/-- A fraction is rounded up to a number if it lies less than half below it, or just half and the number is even. -/
theorem le_roundHalfEven_iff (n d k : Nat) (positive : 0 < d) :
    k ≤ roundHalfEven n d ↔ 2 * (k * d) < 2 * n + d ∨ 2 * (k * d) = 2 * n + d ∧ k % 2 = 0 := by
  have whole := Nat.div_add_mod n d
  have small := Nat.mod_lt n positive
  simp only [roundHalfEven]
  generalize n / d = q at *
  generalize n % d = r at *
  rcases Nat.lt_trichotomy k (q + 1) with low | rfl | high
  · have scaled : k * d ≤ d * q := Nat.mul_comm d q ▸ Nat.mul_le_mul_right d (Nat.le_of_lt_succ low)
    refine iff_of_true ?_ (.inl (by omega))
    split
    · omega
    · split <;> omega
  · have scaled : (q + 1) * d = d * q + d := by ring
    rw [scaled]
    split
    · omega
    · split <;> omega
  · have scaled : d * q + 2 * d ≤ k * d := by
      calc d * q + 2 * d = (q + 2) * d := by ring
        _ ≤ k * d := Nat.mul_le_mul_right d high
    refine iff_of_false ?_ (by omega)
    split
    · omega
    · split <;> omega

/-- The same with the fraction as one number. -/
theorem le_roundHalfEven_iff_div (n d k : Nat) (positive : 0 < d) :
    k ≤ roundHalfEven n d ↔ (k - 1 / 2 : ℚ) < n / d ∨ (k - 1 / 2 : ℚ) = n / d ∧ k % 2 = 0 := by
  have cast : (0 : ℚ) < d := Nat.cast_pos.2 positive
  rw [le_roundHalfEven_iff n d k positive, lt_div_iff₀ cast, eq_div_iff cast.ne', ← Nat.cast_lt (α := ℚ),
    ← Nat.cast_inj (R := ℚ)]
  push_cast
  constructor
  · rintro (less | ⟨same, even⟩)
    · exact .inl (by linarith)
    · exact .inr ⟨by linarith, even⟩
  · rintro (less | ⟨same, even⟩)
    · exact .inl (by linarith)
    · exact .inr ⟨by linarith, even⟩

variable {n d : Nat}

/-- Rounding a fraction reaches exactly the magnitudes that it should reach. -/
theorem le_nearest_iff (positive : 0 < d) (k : Nat) : k ≤ nearest n d ↔ Reaches (n / d) k := by
  by_cases zero : n = 0
  · rcases Nat.eq_zero_or_pos k with rfl | some
    · exact iff_of_true (Nat.zero_le _) (reaches_zero (by positivity))
    · refine iff_of_false (by simp [nearest, zero]; omega) fun reaches => ?_
      have great := (middle_lt_middle some).trans_le reaches.le
      simp [middle_zero, zero] at great
  have last := lastBit_spec zero positive
  rw [nearest, if_neg zero]
  dsimp only
  generalize lastBit n d = e at last
  obtain ⟨order, rfl⟩ : ∃ order : ℕ, e = (order : ℤ) - 1074 := ⟨(e + 1074).toNat, by have := last.lowest; omega⟩
  have same : ((order : ℤ) - 1074 + 1074).toNat = order := by omega
  rw [same]
  have unit : (0 : ℚ) < 2 ^ ((order : ℤ) - 1074) := zpow_pos two_pos _
  have round (j : Nat) := le_roundHalfEven_iff_div (scale n d (order - 1074)).1 (scale n d (order - 1074)).2 j
    (scale_pos n d _ positive)
  simp only [scale_ratio, lt_div_iff₀ unit, eq_div_iff unit.ne'] at round
  generalize roundHalfEven (scale n d (order - 1074)).1 (scale n d (order - 1074)).2 = r at round
  have power : twoPow 52 = 2 ^ 52 := rfl
  rw [power]
  -- The fraction lies between the two ends of its line.
  have below := last.below
  have above := last.above
  rw [zpow_add₀ two_ne_zero] at below
  rw [zpow_add₀ two_ne_zero] at above
  have nonneg : (0 : ℚ) ≤ n / d := by positivity
  generalize (n / d : ℚ) = v at *
  have bottom : order = 0 ∨ 2 ^ 52 ≤ r := by
    rcases Nat.eq_zero_or_pos order with none | some
    · exact .inl none
    · refine .inr ((round (2 ^ 52)).2 (.inl ?_))
      have normal := above (by omega)
      norm_num at normal ⊢
      linarith
  have top : r ≤ 2 ^ 53 := by
    refine not_lt.1 fun more => ?_
    rcases (round (2 ^ 53 + 1)).1 more with less | ⟨same, -⟩
    · norm_num at below less
      linarith
    · norm_num at below same
      linarith
  by_cases beyond : order * 2 ^ 52 + 2 ^ 53 < k
  · refine iff_of_false (by omega) fun reaches => ?_
    have least : place (order * 2 ^ 52 + 2 ^ 53) ≤ v :=
      (place_le_middle _).trans ((middle_le_middle beyond).trans reaches.le)
    rw [place_line order _ le_rfl (.inr (by norm_num))] at least
    norm_num at below least
    linarith
  by_cases inside : order * 2 ^ 52 < k ∧ (order = 0 ∨ order * 2 ^ 52 + 2 ^ 52 < k)
  · obtain ⟨j, rfl⟩ : ∃ j, k = order * 2 ^ 52 + (j + 1) := ⟨k - order * 2 ^ 52 - 1, by omega⟩
    have parity : (order * 2 ^ 52 + (j + 1)) % 2 = (j + 1) % 2 := by omega
    rw [Nat.add_le_add_iff_left, round (j + 1), Reaches, middle_line order j (by omega) (by omega), parity]
    push_cast
    rfl
  · rcases Nat.eq_zero_or_pos order with rfl | some
    · obtain rfl : k = 0 := by omega
      exact iff_of_true (Nat.zero_le _) (reaches_zero nonneg)
    · have first : Reaches v (order * 2 ^ 52 + 2 ^ 52) := by
        refine .inl ((middle_lt_place (by omega)).trans_le ?_)
        have normal := above (by omega)
        rw [place_line order _ (by norm_num) (.inr le_rfl)]
        norm_num at normal ⊢
        linarith
      exact iff_of_true (by omega) (first.mono (by omega))

theorem infinity_even : infinity % 2 = 0 := by decide +kernel

theorem place_infinity : place infinity = 2 ^ (1024 : ℤ) := by
  have split : infinity = 2046 * 2 ^ 52 + 2 ^ 52 := rfl
  rw [split, place_line 2046 (2 ^ 52) (by norm_num) (.inr le_rfl), Nat.cast_pow, Nat.cast_ofNat, ← zpow_natCast,
    ← zpow_add₀ two_ne_zero]
  rfl

theorem middle_infinity : middle infinity = overflow := by
  have whole := two_mul_overflow false
  rw [← place_infinity, size_eq_place] at whole
  rw [middle]
  linarith

/-- Numbers that are too great reach all finite magnitudes and infinity. -/
theorem reaches_infinity_iff {v : ℚ} : Reaches v infinity ↔ overflow ≤ v := by
  rw [Reaches, middle_infinity, and_iff_left infinity_even, ← le_iff_lt_or_eq]

/-- The number that is stood for, with its sign. -/
def value (x : Binary64) : ℚ := (if x.negative then -1 else 1) * x.size

theorem abs_value (x : Binary64) : |x.value| = place x.magnitude := by
  have nonneg : 0 ≤ x.size := place_nonneg x.magnitude
  unfold value
  split
  · rw [neg_one_mul, abs_neg, abs_of_nonneg nonneg, size_eq_place]
  · rw [one_mul, abs_of_nonneg nonneg, size_eq_place]

theorem significand_mod_two (x : Binary64) : x.significand % 2 = x.magnitude % 2 := by
  have power : twoPow 52 = 2 ^ 52 := rfl
  rw [significand, power]
  split <;> omega

/-- The finite number next to a given one; of two that are equally near, the one with the even significand. -/
structure Nearest (v : ℚ) (x : Binary64) : Prop where
  finite : x.IsFinite
  closest : ∀ y : Binary64, y.IsFinite → |x.value - v| ≤ |y.value - v|
  even : ∀ y : Binary64, y.IsFinite → |y.value - v| = |x.value - v| → y.value ≠ x.value → x.significand % 2 = 0

/-- A number is rounded to the magnitude and to no greater one. -/
structure Rounds (v : ℚ) (k : Nat) : Prop where
  reaches : Reaches v k
  short : ¬ Reaches v (k + 1)

theorem Rounds.unique {v : ℚ} {j k : Nat} (first : Rounds v j) (second : Rounds v k) : j = k := by
  rcases Nat.lt_trichotomy j k with less | same | more
  · exact absurd (second.reaches.mono less) first.short
  · exact same
  · exact absurd (first.reaches.mono more) second.short

namespace Rounds

variable {v : ℚ} {k : Nat} (rounds : Rounds v k)
include rounds

theorem dist_le_above {j : Nat} (above : k < j) : |place k - v| ≤ place j - v := by
  have upper := le_of_not_reaches rounds.short
  have next := place_strictMono.monotone above
  have step := place_strictMono k.lt_succ_self
  rw [middle, Nat.add_sub_cancel] at upper
  rw [Nat.succ_eq_add_one] at next step
  rw [abs_le]
  constructor <;> linarith

theorem dist_le_below {j : Nat} (below : j < k) : |place k - v| ≤ v - place j := by
  have lower := rounds.reaches.le
  have before := place_strictMono.monotone (Nat.le_sub_one_of_lt below)
  have step := place_strictMono (Nat.sub_one_lt (Nat.zero_lt_of_lt below).ne')
  rw [middle] at lower
  rw [abs_le]
  constructor <;> linarith

theorem dist_le (j : Nat) : |place k - v| ≤ |place j - v| := by
  rcases Nat.lt_trichotomy j k with below | rfl | above
  · exact (rounds.dist_le_below below).trans (abs_sub_comm v (place j) ▸ le_abs_self _)
  · exact le_rfl
  · exact (rounds.dist_le_above above).trans (le_abs_self _)

/-- Where two magnitudes are equally near, the number lies in a middle. -/
theorem even_of_dist_eq {j : Nat} (other : j ≠ k) (same : |place j - v| = |place k - v|) : k % 2 = 0 := by
  rcases Nat.lt_or_gt_of_ne other with below | above
  · have apart := place_strictMono below
    have before := place_strictMono.monotone (Nat.le_sub_one_of_lt below)
    have half : v ≤ middle k := by
      unfold middle
      rcases abs_cases (place j - v) with ⟨first, _⟩ | ⟨first, _⟩ <;>
        rcases abs_cases (place k - v) with ⟨second, _⟩ | ⟨second, _⟩ <;> linarith
    rcases rounds.reaches with less | ⟨-, even⟩
    · exact absurd half (not_le.2 less)
    · exact even
  · have apart := place_strictMono above
    have next := place_strictMono.monotone (Nat.succ_le_of_lt above)
    have half : middle (k + 1) ≤ v := by
      rw [middle, Nat.add_sub_cancel]
      rw [Nat.succ_eq_add_one] at next
      rcases abs_cases (place j - v) with ⟨first, _⟩ | ⟨first, _⟩ <;>
        rcases abs_cases (place k - v) with ⟨second, _⟩ | ⟨second, _⟩ <;> linarith
    have odd : ¬ (k + 1) % 2 = 0 := fun even =>
      rounds.short (.inr ⟨le_antisymm half (le_of_not_reaches rounds.short), even⟩)
    omega

end Rounds

theorem rounds_zero : Rounds 0 0 :=
  ⟨reaches_zero le_rfl, fun reaches => absurd reaches.le (not_le.2 (middle_zero ▸ middle_lt_middle Nat.one_pos))⟩

theorem Rounds.eq_zero {k : Nat} (rounds : Rounds 0 k) : k = 0 := rounds.unique rounds_zero

/-- Numbers are rounded by their absolute values, and keep their signs. -/
theorem Rounds.nearest {v : ℚ} {x : Binary64} (rounds : Rounds |v| x.magnitude) (finite : x.IsFinite)
    (sign : v = (if x.negative then -1 else 1) * |v|) : x.Nearest v := by
  obtain ⟨w, size⟩ : ∃ w, |v| = w := ⟨_, rfl⟩
  rw [size] at rounds sign
  have here : |x.value - v| = |place x.magnitude - w| := by
    have unit : |(if x.negative then -1 else 1 : ℚ)| = 1 := by split <;> norm_num
    rw [sign, value, size_eq_place, ← mul_sub, abs_mul, unit, one_mul]
  have there (y : Binary64) : |place y.magnitude - w| ≤ |y.value - v| := by
    rw [← abs_value, ← size]
    exact abs_abs_sub_abs_le _ _
  refine ⟨finite, fun y _ => ?_, fun y _ same other => ?_⟩
  · rw [here]
    exact (rounds.dist_le _).trans (there y)
  · rw [significand_mod_two]
    by_cases apart : y.magnitude = x.magnitude
    · have opposite : y.value = -x.value := by
        refine (abs_eq_abs.1 ?_).resolve_left other
        rw [abs_value, abs_value, apart]
      have nothing : x.value * v = 0 := by
        have squares := congrArg (· ^ 2) same
        simp only [sq_abs, opposite] at squares
        linarith
      rcases mul_eq_zero.1 nothing with zero | zero
      · exact absurd (by rw [opposite, zero, neg_zero]) other
      · rw [zero, abs_zero] at size
        rw [← size] at rounds
        rw [rounds.eq_zero]
    · refine rounds.even_of_dist_eq apart (le_antisymm ?_ (rounds.dist_le _))
      rw [← here, ← same]
      exact there y

/-- Numbers are rounded to one value, though zero may have either sign. -/
theorem Rounds.value_eq {v : ℚ} {x y : Binary64} (first : Rounds |v| x.magnitude) (second : Rounds |v| y.magnitude)
    (one : v = (if x.negative then -1 else 1) * |v|) (other : v = (if y.negative then -1 else 1) * |v|) :
    x.value = y.value := by
  rw [value, value, size_eq_place, size_eq_place, first.unique second]
  by_cases zero : v = 0
  · rw [zero, abs_zero] at second
    rw [second.eq_zero, place_zero, mul_zero, mul_zero]
  · rw [mul_right_cancel₀ (abs_ne_zero.2 zero) (one.symm.trans other)]

theorem Nearest.magnitude_le {v : ℚ} {x y : Binary64} (first : x.Nearest v) (second : y.Nearest v)
    (sign : x.negative = y.negative) : y.magnitude ≤ x.magnitude := by
  refine not_lt.1 fun less => ?_
  have apart : x.value ≠ y.value := fun same => by
    have sizes := congrArg abs same
    rw [abs_value, abs_value] at sizes
    exact (place_strictMono less).ne sizes
  have same := le_antisymm (first.closest y second.finite) (second.closest x first.finite)
  have half : v = (x.value + y.value) / 2 := by
    rcases abs_eq_abs.1 same with equal | opposite
    · exact absurd (sub_left_injective equal) apart
    · linarith
  -- Both are even, so that there is a number between them, which is nearer.
  have low := first.even y second.finite same.symm apart.symm
  have high := second.even x first.finite same apart
  rw [significand_mod_two] at low high
  have between : x.magnitude + 1 < y.magnitude := by omega
  have far := sq_le_sq.2 (first.closest ⟨x.negative, x.magnitude + 1⟩ (between.trans second.finite))
  have above := place_strictMono x.magnitude.lt_add_one
  have below := place_strictMono between
  have crossed := mul_pos (sub_pos.2 above) (sub_pos.2 below)
  rw [half] at far
  simp only [value, size_eq_place, ← sign] at far
  generalize x.negative = negative at far
  cases negative <;> simp only [Bool.false_eq_true, if_true, if_false] at far <;> linarith

/-- Of the numbers with one sign only one is nearest. -/
theorem Nearest.unique {v : ℚ} {x y : Binary64} (first : x.Nearest v) (second : y.Nearest v)
    (sign : x.negative = y.negative) : x = y := by
  have same := le_antisymm (second.magnitude_le first sign.symm) (first.magnitude_le second sign)
  cases x
  cases y
  simp_all

/-- Of two numbers, the lower one is rounded to the lower one or to the same. -/
theorem Nearest.value_le {v w : ℚ} {x y : Binary64} (first : x.Nearest v) (second : y.Nearest w) (less : v < w) :
    x.value ≤ y.value := by
  have near := sq_le_sq.2 (first.closest y second.finite)
  have far := sq_le_sq.2 (second.closest x first.finite)
  refine not_lt.1 fun more => ?_
  have crossed := mul_pos (sub_pos.2 more) (sub_pos.2 less)
  linarith

end Binary64

namespace Decimal
open Binary64

/-- A number with a point far before its digits is too small even for the lowest magnitude. -/
theorem lt_middle_of_order (x : Decimal) (small : (width x.coefficient : ℤ) + x.exponent < -400) :
    x.coefficient * 10 ^ x.exponent < middle 1 := by
  have lowest : middle 1 = 2 ^ (-1075 : ℤ) := by
    have half : (2 : ℚ) ^ (-1074 : ℤ) = 2 ^ (-1075 : ℤ) * 2 := zpow_add_one₀ two_ne_zero (-1075)
    have line := middle_line 0 0 (by norm_num) (.inl rfl)
    norm_num [-zpow_neg] at line
    rw [line, half]
    ring
  have tens : (0 : ℚ) < 10 ^ x.exponent := zpow_pos (by norm_num) _
  have high : (x.coefficient : ℚ) < 10 ^ (width x.coefficient : ℤ) := by exact_mod_cast lt_tenPow_width _
  rw [lowest]
  calc (x.coefficient : ℚ) * 10 ^ x.exponent < 10 ^ (width x.coefficient : ℤ) * 10 ^ x.exponent := by gcongr
    _ = 10 ^ ((width x.coefficient : ℤ) + x.exponent) := (zpow_add₀ (by norm_num) _ _).symm
    _ ≤ 10 ^ ((-4 : ℤ) * 100) := zpow_le_zpow_right₀ (by norm_num) (by omega)
    _ = (10 ^ (-4 : ℤ)) ^ (100 : ℤ) := zpow_mul 10 (-4) 100
    _ ≤ (2 ^ (-12 : ℤ)) ^ (100 : ℤ) := zpow_le_zpow_left₀ (by norm_num) (by norm_num) (by norm_num)
    _ = 2 ^ ((-12 : ℤ) * 100) := (zpow_mul 2 (-12) 100).symm
    _ ≤ 2 ^ (-1075 : ℤ) := zpow_le_zpow_right₀ one_le_two (by norm_num)

theorem le_magnitude_iff (x : Decimal) (k : Nat) (finite : k ≤ infinity) :
    k ≤ x.magnitude ↔ Reaches (x.coefficient * 10 ^ x.exponent) k := by
  have positive : 0 < k → middle 0 < middle k := middle_lt_middle
  simp only [magnitude]
  split
  next zero =>
    rcases Nat.eq_zero_or_pos k with rfl | some
    · exact iff_of_true le_rfl (reaches_zero (by positivity))
    · refine iff_of_false (by omega) fun reaches => ?_
      have below := reaches.le.trans_lt' (positive some)
      rw [middle_zero, zero, Nat.cast_zero, zero_mul] at below
      exact lt_irrefl _ below
  next nonzero =>
    split
    next great =>
      exact iff_of_true finite ((reaches_infinity_iff.2 (x.overflow_le_of_order nonzero great)).mono finite)
    next =>
      split
      next small =>
        rcases Nat.eq_zero_or_pos k with rfl | some
        · exact iff_of_true le_rfl (reaches_zero (by positivity))
        · refine iff_of_false (by omega) fun reaches => ?_
          exact absurd ((middle_le_middle some).trans reaches.le) (not_le.2 (x.lt_middle_of_order small))
      next =>
        split
        next nonneg =>
          rw [le_nearest_iff Nat.one_pos]
          push_cast
          rw [cast_tenPow, div_one, ← zpow_natCast, Int.toNat_of_nonneg nonneg]
        next negative =>
          rw [le_nearest_iff (tenPow_pos _), cast_tenPow, ← zpow_natCast, Int.toNat_of_nonneg (by omega),
            div_eq_mul_inv, ← zpow_neg, neg_neg]

theorem value_eq_abs (x : Decimal) : x.value = (if x.negative then -1 else 1) * |x.value| := by
  rw [abs_value, value]

/-- A decimal number is rounded to the finite number that has its sign and the magnitude of its absolute value. -/
theorem toBinary64?_eq_some_iff (x : Decimal) (y : Binary64) :
    x.toBinary64? = some y ↔ y.IsFinite ∧ y.negative = x.negative ∧ Rounds |x.value| y.magnitude := by
  have reaches (k : Nat) (finite : k ≤ infinity) : k ≤ x.magnitude ↔ Reaches |x.value| k := by
    rw [abs_value]
    exact x.le_magnitude_iff k finite
  have rounds (finite : x.magnitude < infinity) : Rounds |x.value| x.magnitude :=
    ⟨(reaches _ finite.le).1 le_rfl, fun more => Nat.not_succ_le_self _ ((reaches _ finite).2 more)⟩
  unfold toBinary64?
  split
  next finite =>
    constructor
    · rintro ⟨rfl⟩
      exact ⟨finite, rfl, rounds finite⟩
    · rintro ⟨-, sign, same⟩
      rw [(rounds finite).unique same, ← sign]
  next great =>
    refine iff_of_false (by simp) ?_
    rintro ⟨finite, -, same⟩
    exact same.short ((reaches _ finite).1 (Nat.succ_le_of_lt (finite.trans_le (not_lt.1 great))))

end Decimal
end SqlSchema
