import Mathlib.Algebra.Order.Field.Power
import Mathlib.Data.Rat.Cast.Order
import Mathlib.Tactic.FieldSimp
import Mathlib.Tactic.Linarith
import Mathlib.Tactic.NormNum
import Mathlib.Tactic.Positivity
import Mathlib.Tactic.Ring
import SqlSchema.Number.Decimal

/-! Decimal numbers that are too great. A decimal number has a finite nearest binary number exactly if it lies below the
middle between the greatest finite one and the power of two that would come next. -/
namespace SqlSchema

theorem cast_twoPow (n : Nat) : (twoPow n : ℚ) = 2 ^ n := by
  rw [twoPow, Nat.pow_eq, Nat.cast_pow, Nat.cast_ofNat]

theorem cast_tenPow (n : Nat) : (tenPow n : ℚ) = 10 ^ n := by
  rw [tenPow, Nat.pow_eq, Nat.cast_pow, Nat.cast_ofNat]

/-- Of the powers to an integer and to its negation, cut off at zero, one is missing. -/
theorem zpow_eq_pow_div_pow (base : ℚ) (e : ℤ) (nonzero : base ≠ 0) :
    base ^ e = base ^ e.toNat / base ^ (-e).toNat := by
  rw [← zpow_natCast, ← zpow_natCast, ← zpow_sub₀ nonzero]
  congr 1
  omega

namespace Binary64

/-- The middle between the greatest finite number and `2 ^ 1024`. -/
def overflow : ℚ := 2 ^ (1024 : ℤ) - 2 ^ (970 : ℤ)

/-- An even number is reached from half a step below it. -/
theorem roundHalfEven_lt_iff (n d m : Nat) (positive : 0 < d) :
    roundHalfEven n d < 2 * m ↔ 2 * n + d < 4 * (m * d) := by
  have whole := Nat.div_add_mod n d
  have small := Nat.mod_lt n positive
  simp only [roundHalfEven]
  generalize n / d = q at *
  generalize n % d = r at *
  have near : q < 2 * m → q + 1 = 2 * m ∨ q + 2 ≤ 2 * m := by omega
  rcases Nat.lt_or_ge q (2 * m) with less | more
  · rcases near less with last | far
    · have top : d * q + d = 2 * (m * d) := by
        calc d * q + d = (q + 1) * d := by ring
          _ = 2 * m * d := by rw [last]
          _ = 2 * (m * d) := Nat.mul_assoc 2 m d
      have odd : q % 2 = 1 := by omega
      rw [odd]
      split
      · omega
      · split <;> omega
    · have below : d * q + 2 * d ≤ 2 * (m * d) := by
        calc d * q + 2 * d = (q + 2) * d := by ring
          _ ≤ 2 * m * d := Nat.mul_le_mul_right d far
          _ = 2 * (m * d) := Nat.mul_assoc 2 m d
      split
      · omega
      · split <;> omega
  · have above : 2 * (m * d) ≤ d * q := by
      calc 2 * (m * d) = 2 * m * d := (Nat.mul_assoc 2 m d).symm
        _ ≤ q * d := Nat.mul_le_mul_right d more
        _ = d * q := Nat.mul_comm q d
    split
    · omega
    · split <;> omega

/-- The same with the fraction as one number. -/
theorem roundHalfEven_lt_iff_div (n d m : Nat) (positive : 0 < d) :
    roundHalfEven n d < 2 * m ↔ (n / d : ℚ) < 2 * m - 1 / 2 := by
  have cast : (0 : ℚ) < d := Nat.cast_pos.2 positive
  rw [roundHalfEven_lt_iff n d m positive, div_lt_iff₀ cast, ← Nat.cast_lt (α := ℚ)]
  push_cast
  constructor <;> intro less <;> linarith

theorem scale_pos (n d : Nat) (e : Int) (positive : 0 < d) : 0 < (scale n d e).2 :=
  Nat.mul_pos positive (twoPow_pos _)

theorem scale_ratio (n d : Nat) (e : Int) : ((scale n d e).1 / (scale n d e).2 : ℚ) = n / d / 2 ^ e := by
  rw [zpow_eq_pow_div_pow 2 e two_ne_zero, scale]
  push_cast
  rw [cast_twoPow, cast_twoPow]
  field_simp

variable {n d : Nat}

/-- A fraction lies between the powers of two that the lengths of its parts allow. -/
theorem between_log2 (nonzero : n ≠ 0) (positive : 0 < d) :
    (2 : ℚ) ^ ((n.log2 : ℤ) - d.log2 - 1) ≤ n / d ∧ (n / d : ℚ) < 2 ^ ((n.log2 : ℤ) - d.log2 + 1) := by
  have cast : (0 : ℚ) < d := Nat.cast_pos.2 positive
  have lowN : (2 : ℚ) ^ (n.log2 : ℤ) ≤ n := by exact_mod_cast Nat.log2_self_le nonzero
  have highN : (n : ℚ) < 2 ^ ((n.log2 : ℤ) + 1) := by exact_mod_cast @Nat.lt_log2_self n
  have lowD : (2 : ℚ) ^ (d.log2 : ℤ) ≤ d := by exact_mod_cast Nat.log2_self_le positive.ne'
  have highD : (d : ℚ) < 2 ^ ((d.log2 : ℤ) + 1) := by exact_mod_cast @Nat.lt_log2_self d
  constructor
  · rw [le_div_iff₀ cast]
    calc (2 : ℚ) ^ ((n.log2 : ℤ) - d.log2 - 1) * d
        ≤ 2 ^ ((n.log2 : ℤ) - d.log2 - 1) * 2 ^ ((d.log2 : ℤ) + 1) := by gcongr
      _ = 2 ^ (n.log2 : ℤ) := by rw [← zpow_add₀ two_ne_zero]; congr 1; omega
      _ ≤ n := lowN
  · rw [div_lt_iff₀ cast]
    calc (n : ℚ) < 2 ^ ((n.log2 : ℤ) + 1) := highN
      _ = 2 ^ ((n.log2 : ℤ) - d.log2 + 1) * 2 ^ (d.log2 : ℤ) := by rw [← zpow_add₀ two_ne_zero]; congr 1; omega
      _ ≤ 2 ^ ((n.log2 : ℤ) - d.log2 + 1) * d := by gcongr

/-- The last bit is the one of a number with 53 bits, unless it would lie below the lowest. -/
structure LastBit (n d : Nat) (e : ℤ) : Prop where
  lowest : -1074 ≤ e
  below : (n / d : ℚ) < 2 ^ (e + 53)
  above : -1074 < e → (2 : ℚ) ^ (e + 52) ≤ n / d

theorem scale_lt_iff (e : ℤ) (positive : 0 < d) :
    (scale n d e).1 < twoPow 52 * (scale n d e).2 ↔ (n / d : ℚ) < 2 ^ (e + 52) := by
  have cast : (0 : ℚ) < (scale n d e).2 := Nat.cast_pos.2 (scale_pos n d e positive)
  rw [← Nat.cast_lt (α := ℚ), Nat.cast_mul, cast_twoPow, ← div_lt_iff₀ cast, scale_ratio,
    div_lt_iff₀ (zpow_pos two_pos e), ← zpow_natCast, ← zpow_add₀ two_ne_zero]
  rw [Int.add_comm]
  rfl

theorem lastBit_spec (nonzero : n ≠ 0) (positive : 0 < d) : LastBit n d (lastBit n d) := by
  obtain ⟨low, high⟩ := between_log2 nonzero positive
  have grow {e e' : ℤ} (le : e ≤ e') : (2 : ℚ) ^ e ≤ 2 ^ e' := zpow_le_zpow_right₀ one_le_two le
  simp only [lastBit]
  generalize first : max (-1074) ((n.log2 : ℤ) - d.log2 - 52) = e
  split
  next lower =>
    refine ⟨by omega, ?_, fun _ => (grow ?_).trans low⟩
    · rw [show e - 1 + 53 = e + 52 by omega]
      exact (scale_lt_iff e positive).1 lower.2
    · omega
  next enough =>
    refine ⟨by omega, high.trans_le (grow (by omega)), fun normal => not_lt.1 fun less => ?_⟩
    exact enough ⟨normal, (scale_lt_iff e positive).2 less⟩

/-- The greatest order of magnitude ends half a step below the next power of two. -/
theorem overflow_eq : overflow = (2 * 2 ^ 52 - 1 / 2) * 2 ^ (971 : ℤ) := by
  have last : (2 : ℚ) ^ (971 : ℤ) = 2 ^ (970 : ℤ) * 2 := zpow_add_one₀ two_ne_zero 970
  have next : (2 : ℚ) ^ (1024 : ℤ) = 2 ^ (970 : ℤ) * 2 ^ (54 : ℤ) := zpow_add₀ two_ne_zero 970 54
  have few : (2 : ℚ) ^ (54 : ℤ) = 4 * 2 ^ 52 := by norm_num
  rw [overflow, last, next, few]
  ring

/-- The absolute value of a finite number. -/
def size (x : Binary64) : ℚ := x.significand * 2 ^ x.exponent

theorem two_mul_overflow (negative : Bool) : 2 * overflow = size ⟨negative, infinity - 1⟩ + 2 ^ (1024 : ℤ) := by
  have significand : significand ⟨negative, infinity - 1⟩ = 2 ^ 53 - 1 := by cases negative <;> decide +kernel
  have exponent : exponent ⟨negative, infinity - 1⟩ = 971 := by cases negative <;> decide +kernel
  have next : (2 : ℚ) ^ (1024 : ℤ) = 2 ^ (53 : ℤ) * 2 ^ (971 : ℤ) := zpow_add₀ two_ne_zero 53 971
  rw [size, significand, exponent, next, overflow_eq]
  generalize (2 : ℚ) ^ (971 : ℤ) = last
  norm_num
  ring

theorem overflow_pos : 0 < overflow := by
  rw [overflow_eq]
  exact mul_pos (by norm_num) (zpow_pos two_pos _)

/-- The magnitude nearest to a fraction is finite exactly below the overflow bound. -/
theorem nearest_lt_infinity_iff (positive : 0 < d) : nearest n d < infinity ↔ (n / d : ℚ) < overflow := by
  by_cases zero : n = 0
  · simp [nearest, zero, infinity, overflow_pos, twoPow_pos]
  have last := lastBit_spec zero positive
  rw [nearest, if_neg zero]
  simp only [infinity]
  generalize lastBit n d = e at last
  have round (m : Nat) := roundHalfEven_lt_iff_div (scale n d e).1 (scale n d e).2 m (scale_pos n d e positive)
  simp only [scale_ratio, div_lt_iff₀ (zpow_pos (two_pos (α := ℚ)) e)] at round
  generalize roundHalfEven (scale n d e).1 (scale n d e).2 = k at round
  have size : twoPow 52 = 2 ^ 52 := rfl
  have unit : (0 : ℚ) < 2 ^ e := zpow_pos two_pos e
  have below := last.below
  rw [zpow_add₀ two_ne_zero] at below
  rcases lt_trichotomy e 971 with low | rfl | high
  · have narrow : k < 2 * (2 ^ 52 + 1) := by
      rw [round]
      refine below.trans ?_
      rw [mul_comm]
      exact mul_lt_mul_of_pos_right (by norm_num) unit
    have finite : (n / d : ℚ) < overflow := by
      calc (n / d : ℚ) < 2 ^ (e + 53) := last.below
        _ ≤ 2 ^ ((52 : ℤ) + 971) := zpow_le_zpow_right₀ one_le_two (by omega)
        _ = 2 ^ (52 : ℤ) * 2 ^ (971 : ℤ) := zpow_add₀ two_ne_zero 52 971
        _ ≤ overflow := overflow_eq ▸ mul_le_mul_of_nonneg_right (by norm_num) (zpow_pos two_pos _).le
    have order : (e + 1074).toNat ≤ 2044 := by omega
    have lower := Nat.mul_le_mul_right (2 ^ 52) order
    rw [size]
    exact iff_of_true (by omega) finite
  · have top := round (2 ^ 52)
    rw [Nat.cast_pow, Nat.cast_ofNat, ← overflow_eq] at top
    rw [← top, size]
    omega
  · have normal : (2 : ℚ) ^ (e + 52) ≤ n / d := last.above (by omega)
    have wide : ¬k < 2 * 2 ^ 51 := by
      rw [round, not_lt]
      refine le_trans ?_ normal
      rw [zpow_add₀ two_ne_zero, mul_comm]
      exact mul_le_mul_of_nonneg_left (by norm_num) unit.le
    have great : ¬(n / d : ℚ) < overflow := by
      rw [not_lt]
      calc overflow ≤ 2 ^ (1024 : ℤ) := sub_le_self _ (zpow_pos two_pos _).le
        _ ≤ 2 ^ (e + 52) := zpow_le_zpow_right₀ one_le_two (by omega)
        _ ≤ n / d := normal
    have order : 2046 ≤ (e + 1074).toNat := by omega
    have higher := Nat.mul_le_mul_right (2 ^ 52) order
    rw [size]
    exact iff_of_false (by omega) great

/-- Far more than enough digits make a number overflow. -/
theorem overflow_le_tenPow : overflow ≤ 10 ^ (400 : ℤ) := by
  calc overflow ≤ 2 ^ (1024 : ℤ) := sub_le_self _ (zpow_pos two_pos _).le
    _ ≤ 2 ^ ((3 : ℤ) * 400) := zpow_le_zpow_right₀ one_le_two (by omega)
    _ = (2 ^ (3 : ℤ)) ^ (400 : ℤ) := zpow_mul 2 3 400
    _ ≤ 10 ^ (400 : ℤ) := zpow_le_zpow_left₀ (by norm_num) (by norm_num) (by norm_num)

theorem one_lt_overflow : 1 < overflow := by
  have most : (1 : ℚ) ≤ 2 ^ (971 : ℤ) := one_le_zpow₀ one_le_two (by norm_num)
  rw [overflow_eq]
  generalize (2 : ℚ) ^ (971 : ℤ) = last at most ⊢
  linarith

end Binary64

namespace Decimal

/-- The number that a decimal number stands for. -/
def value (x : Decimal) : ℚ := (if x.negative then -1 else 1) * (x.coefficient * 10 ^ x.exponent)

theorem abs_value (x : Decimal) : |x.value| = x.coefficient * 10 ^ x.exponent := by
  have size : (0 : ℚ) ≤ x.coefficient * 10 ^ x.exponent := by positivity
  unfold value
  split
  · rw [neg_one_mul, abs_neg, abs_of_nonneg size]
  · rw [one_mul, abs_of_nonneg size]

theorem lt_tenPow_width (n : Nat) : n < 10 ^ width n :=
  (Nat.length_toDigits_le_iff (by omega) Nat.length_toDigits_pos).1 le_rfl

theorem tenPow_le_of_lt_width {n k : Nat} (nonzero : n ≠ 0) (wide : k < width n) : 10 ^ k ≤ n := by
  rcases Nat.eq_zero_or_pos k with rfl | positive
  · exact Nat.one_le_iff_ne_zero.2 nonzero
  · exact not_lt.1 fun less => absurd wide (not_lt.2 ((Nat.length_toDigits_le_iff (by omega) positive).2 less))

/-- A number of many digits lies beyond the overflow bound, whatever the digits are. -/
theorem overflow_le_of_order (x : Decimal) (nonzero : x.coefficient ≠ 0)
    (great : 400 < (width x.coefficient : ℤ) + x.exponent) :
    Binary64.overflow ≤ x.coefficient * 10 ^ x.exponent := by
  have tens : (0 : ℚ) < 10 ^ x.exponent := zpow_pos (by norm_num) _
  have digits : 0 < width x.coefficient := Nat.length_toDigits_pos
  have low : (10 : ℚ) ^ ((width x.coefficient : ℤ) - 1) ≤ x.coefficient := by
    rw [show (width x.coefficient : ℤ) - 1 = (width x.coefficient - 1 : ℕ) by omega, zpow_natCast]
    exact_mod_cast tenPow_le_of_lt_width nonzero (Nat.sub_one_lt digits.ne')
  calc Binary64.overflow ≤ 10 ^ (400 : ℤ) := Binary64.overflow_le_tenPow
    _ ≤ 10 ^ ((width x.coefficient : ℤ) - 1 + x.exponent) := zpow_le_zpow_right₀ (by norm_num) (by omega)
    _ = 10 ^ ((width x.coefficient : ℤ) - 1) * 10 ^ x.exponent := zpow_add₀ (by norm_num) _ _
    _ ≤ x.coefficient * 10 ^ x.exponent := by gcongr

/-- A number with a point far before its digits lies below it. -/
theorem lt_overflow_of_order (x : Decimal) (small : (width x.coefficient : ℤ) + x.exponent < -400) :
    x.coefficient * 10 ^ x.exponent < Binary64.overflow := by
  have tens : (0 : ℚ) < 10 ^ x.exponent := zpow_pos (by norm_num) _
  have high : (x.coefficient : ℚ) < 10 ^ (width x.coefficient : ℤ) := by exact_mod_cast lt_tenPow_width _
  calc (x.coefficient : ℚ) * 10 ^ x.exponent < 10 ^ (width x.coefficient : ℤ) * 10 ^ x.exponent := by gcongr
    _ = 10 ^ ((width x.coefficient : ℤ) + x.exponent) := (zpow_add₀ (by norm_num) _ _).symm
    _ ≤ 1 := zpow_le_one_of_nonpos₀ (by norm_num) (by omega)
    _ < Binary64.overflow := Binary64.one_lt_overflow

theorem magnitude_lt_infinity_iff (x : Decimal) :
    x.magnitude < Binary64.infinity ↔ x.coefficient * 10 ^ x.exponent < Binary64.overflow := by
  simp only [magnitude]
  split
  next zero => simp [zero, Binary64.infinity, Binary64.overflow_pos, twoPow_pos]
  next nonzero =>
    split
    next great => exact iff_of_false (lt_irrefl _) (not_lt.2 (x.overflow_le_of_order nonzero great))
    next =>
      split
      next small =>
        exact iff_of_true (Nat.mul_pos (by decide) (twoPow_pos _)) (x.lt_overflow_of_order small)
      next =>
        split
        next nonneg =>
          rw [Binary64.nearest_lt_infinity_iff Nat.one_pos]
          push_cast
          rw [cast_tenPow, div_one, ← zpow_natCast, Int.toNat_of_nonneg nonneg]
        next negative =>
          rw [Binary64.nearest_lt_infinity_iff (tenPow_pos _), cast_tenPow, ← zpow_natCast,
            Int.toNat_of_nonneg (by omega), div_eq_mul_inv, ← zpow_neg, neg_neg]

/-- A decimal number has no nearest finite binary number exactly if it lies beyond the overflow bound. -/
theorem toBinary64?_eq_none_iff (x : Decimal) : x.toBinary64? = none ↔ Binary64.overflow ≤ |x.value| := by
  rw [abs_value, ← not_lt, ← magnitude_lt_infinity_iff]
  unfold toBinary64?
  split <;> simp_all

end Decimal
end SqlSchema
