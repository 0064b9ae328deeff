import SqlSchema.Number.Shortest
import SqlSchema.Proofs.Number.Nearest

/-! The shortest decimal text reads back. A decimal number reads back as a binary one exactly if it lies in the interval
of what is rounded to it, and the two neighbours of a binary number on a grid of seventeen digits are so near to each other
that one of them does. -/
namespace SqlSchema
namespace Binary64

/-! The interval. -/

theorem significand_line (negative : Bool) (order j : Nat) (top : j < 2 ^ 53) (bottom : order = 0 ∨ 2 ^ 52 ≤ j) :
    significand ⟨negative, order * 2 ^ 52 + j⟩ = j := by
  have power : twoPow 52 = 2 ^ 52 := rfl
  simp only [significand, power]
  split <;> omega

theorem exponent_line (negative : Bool) (order j : Nat) (top : j < 2 ^ 53) (bottom : order = 0 ∨ 2 ^ 52 ≤ j) :
    exponent ⟨negative, order * 2 ^ 52 + j⟩ = (order : ℤ) - 1074 := by
  have power : twoPow 52 = 2 ^ 52 := rfl
  simp only [exponent, power]
  omega

/-- The number stands in its interval with the middles of the two steps around it. -/
structure Interval.Around (i : Interval) (k : Nat) : Prop where
  low : i.low * 2 ^ i.unit = middle k
  value : i.value * 2 ^ i.unit = place k
  high : i.high * 2 ^ i.unit = middle (k + 1)
  closed : i.closed = true ↔ k % 2 = 0

/-- A quarter of the last bit is the unit. -/
theorem quarter (e : ℤ) : (2 : ℚ) ^ e = 4 * 2 ^ (e - 2) := by
  have four : (2 : ℚ) ^ (2 : ℤ) = 4 := by norm_num
  rw [← four, ← zpow_add₀ two_ne_zero]
  congr 1
  omega

theorem around_interval (x : Binary64) (nonzero : 0 < x.magnitude) : x.interval.Around x.magnitude := by
  obtain ⟨negative, k⟩ := x
  obtain ⟨order, j, rfl, top, bottom⟩ := exists_line k
  have power : twoPow 52 = 2 ^ 52 := rfl
  dsimp only at nonzero
  simp only [interval, significand_line negative order j top bottom, exponent_line negative order j top bottom, power]
  refine ⟨?_, ?_, ?_, ?_⟩
  · dsimp only
    split
    next first =>
      obtain ⟨rfl, normal⟩ := first
      -- The step below a power of two belongs to the order before.
      obtain ⟨before, rfl⟩ : ∃ before, order = before + 1 := ⟨order - 1, by omega⟩
      have split : (before + 1) * 2 ^ 52 + 2 ^ 52 = before * 2 ^ 52 + (2 ^ 53 - 1 + 1) := by ring
      have unit : ((before + 1 : ℕ) : ℤ) - 1074 = before - 1074 + 1 := by push_cast; ring
      rw [split, middle_line before (2 ^ 53 - 1) (by norm_num) (.inr (by norm_num)), unit, quarter ((before : ℤ) - 1074),
        add_sub_right_comm, zpow_add_one₀ two_ne_zero]
      push_cast
      ring
    next other =>
      obtain ⟨i, rfl⟩ : ∃ i, j = i + 1 := ⟨j - 1, by omega⟩
      have three : 4 * (i + 1) - 2 = 4 * i + 2 := by omega
      rw [three, middle_line order i (by omega) (by omega), quarter ((order : ℤ) - 1074)]
      push_cast
      ring
  · rw [place_line order j top.le bottom, quarter ((order : ℤ) - 1074)]
    push_cast
    ring
  · rw [Nat.add_assoc, middle_line order j top bottom, quarter ((order : ℤ) - 1074)]
    push_cast
    ring
  · dsimp only
    rw [decide_eq_true_iff]
    omega

/-- The interval is wide, compared with the number. -/
theorem value_lt_interval (x : Binary64) : x.interval.value + 10 ^ 16 * x.interval.low < 10 ^ 16 * x.interval.high := by
  obtain ⟨negative, k⟩ := x
  obtain ⟨order, j, rfl, top, bottom⟩ := exists_line k
  have power : twoPow 52 = 2 ^ 52 := rfl
  simp only [interval, significand_line negative order j top bottom, exponent_line negative order j top bottom, power]
  split <;> omega

theorem compareScaled_eq (c : Nat) (g : ℤ) (n : Nat) (q : ℤ) :
    compareScaled c g n q = compare (c * 10 ^ g : ℚ) (n * 2 ^ q) := by
  have twos : (0 : ℚ) < 2 ^ (-q).toNat := by positivity
  have tens : (0 : ℚ) < 10 ^ (-g).toNat := by positivity
  have left : (c * 10 ^ g : ℚ) = (c * tenPow g.toNat * twoPow (-q).toNat : ℕ) / (2 ^ (-q).toNat * 10 ^ (-g).toNat) := by
    rw [zpow_eq_pow_div_pow 10 g (by norm_num)]
    push_cast
    rw [cast_tenPow, cast_twoPow]
    field_simp
  have right : (n * 2 ^ q : ℚ) = (n * twoPow q.toNat * tenPow (-g).toNat : ℕ) / (2 ^ (-q).toNat * 10 ^ (-g).toNat) := by
    rw [zpow_eq_pow_div_pow 2 q two_ne_zero]
    push_cast
    rw [cast_tenPow, cast_twoPow]
    field_simp
  have grows : StrictMono fun m : ℕ => (m : ℚ) / (2 ^ (-q).toNat * 10 ^ (-g).toNat) := fun a b less =>
    div_lt_div_of_pos_right (Nat.cast_lt.2 less) (by positivity)
  rw [compareScaled, left, right, ← cmp_eq_compare, ← cmp_eq_compare]
  exact (grows.cmp_map_eq _ _).symm

namespace Interval

variable {i : Interval} {k : Nat} (around : i.Around k)
include around

/-- What lies in the interval is rounded to the number. -/
theorem Around.holds_iff (c : Nat) (g : ℤ) : i.holds c g = true ↔ Rounds (c * 10 ^ g) k := by
  have rounds : Rounds (c * 10 ^ g) k ↔ Reaches (c * 10 ^ g) k ∧ ¬ Reaches (c * 10 ^ g) (k + 1) :=
    ⟨fun h => ⟨h.reaches, h.short⟩, fun h => ⟨h.1, h.2⟩⟩
  rw [rounds, holds, compareScaled_eq, compareScaled_eq, around.low, around.high]
  generalize (c * 10 ^ g : ℚ) = v
  by_cases even : k % 2 = 0
  · have odd : ¬ (k + 1) % 2 = 0 := by omega
    simp only [around.closed.2 even, if_true, Bool.and_eq_true, bne_iff_ne, ne_eq, compare_lt_iff_lt,
      compare_gt_iff_gt, not_lt, Reaches, even, odd, and_true, and_false, or_false, ← le_iff_lt_or_eq]
  · have odd : (k + 1) % 2 = 0 := by omega
    have opened : i.closed = false := by simpa using mt around.closed.1 even
    simp only [opened, Bool.false_eq_true, if_false, Bool.and_eq_true, beq_iff_eq, compare_lt_iff_lt,
      compare_gt_iff_gt, Reaches, even, odd, and_true, and_false, or_false, ← le_iff_lt_or_eq, not_le]

/-- The neighbours of the number on a grid. -/
theorem Around.floor_le (g : ℤ) : (i.floor g * 10 ^ g : ℚ) ≤ place k ∧ place k < (i.floor g + 1 : ℕ) * 10 ^ g := by
  have tens : (0 : ℚ) < 10 ^ g := by positivity
  have bottom : 0 < twoPow (-i.unit).toNat * tenPow g.toNat := Nat.mul_pos (twoPow_pos _) (tenPow_pos _)
  have scaled : place k / 10 ^ g =
      (i.value * twoPow i.unit.toNat * tenPow (-g).toNat : ℕ) / (twoPow (-i.unit).toNat * tenPow g.toNat : ℕ) := by
    rw [← around.value, zpow_eq_pow_div_pow 2 i.unit two_ne_zero, zpow_eq_pow_div_pow 10 g (by norm_num)]
    push_cast
    simp only [cast_tenPow, cast_twoPow]
    field_simp
  have cast : (0 : ℚ) < (twoPow (-i.unit).toNat * tenPow g.toNat : ℕ) := Nat.cast_pos.2 bottom
  rw [← le_div_iff₀ tens, ← div_lt_iff₀ tens, scaled, le_div_iff₀ cast, div_lt_iff₀ cast, floor]
  constructor
  · exact_mod_cast Nat.div_mul_le_self _ _
  · exact_mod_cast Nat.lt_mul_of_div_lt (Nat.lt_succ_self _) bottom

/-- One of the two neighbours reads back, unless the whole interval lies between them. -/
theorem Around.holds_of_near (nonzero : 0 < k) (g : ℤ) (near : (10 : ℚ) ^ g < middle (k + 1) - middle k) :
    i.holds (i.floor g) g = true ∨ i.holds (i.floor g + 1) g = true := by
  have ⟨below, above⟩ := around.floor_le g
  have start := middle_lt_place nonzero
  have step := place_strictMono k.lt_succ_self
  rw [around.holds_iff, around.holds_iff]
  by_cases first : Reaches (i.floor g * 10 ^ g) k
  · refine .inl ⟨first, fun more => ?_⟩
    have far := more.le
    rw [middle, Nat.add_sub_cancel] at far
    linarith
  · have short := le_of_not_reaches first
    refine .inr ⟨.inl (start.trans above), fun more => ?_⟩
    have far := more.le
    push_cast at far
    linarith

end Interval

/-- The lowest number has far less than four hundred zeros behind the point. -/
theorem one_le_place_mul {k : Nat} (nonzero : 0 < k) : 1 ≤ place k * 10 ^ 400 := by
  have least : place 1 = 2 ^ (-1074 : ℤ) := by
    rw [show 1 = 0 * 2 ^ 52 + 1 from rfl, place_line 0 1 (by norm_num) (.inl rfl)]
    norm_num
  have few : (2 : ℚ) ^ 1074 ≤ 10 ^ 400 := by
    calc (2 : ℚ) ^ 1074 = (2 ^ 3) ^ 358 := by rw [← pow_mul]
      _ ≤ 10 ^ 358 := pow_le_pow_left₀ (by norm_num) (by norm_num) 358
      _ ≤ 10 ^ 400 := pow_le_pow_right₀ (by norm_num) (by norm_num)
  calc (1 : ℚ) = 2 ^ (-1074 : ℤ) * 2 ^ 1074 := by rw [zpow_neg, zpow_ofNat, inv_mul_cancel₀ (by positivity)]
    _ ≤ place 1 * 10 ^ 400 := by rw [least]; gcongr
    _ ≤ place k * 10 ^ 400 := by gcongr; exact place_strictMono.monotone nonzero

theorem Interval.Around.tenPow_decimalOrder_le {i : Interval} {k : Nat} (around : i.Around k) (nonzero : 0 < k) :
    10 ^ (decimalOrder i - 1) ≤ place k := by
  have bottom : (0 : ℚ) < twoPow (-i.unit).toNat := Nat.cast_pos.2 (twoPow_pos _)
  have scaled : place k * 10 ^ 400 = (i.value * twoPow i.unit.toNat * tenPow 400 : ℕ) / twoPow (-i.unit).toNat := by
    rw [← around.value, zpow_eq_pow_div_pow 2 i.unit two_ne_zero]
    push_cast
    rw [cast_twoPow, cast_twoPow, cast_tenPow, mul_div_assoc', div_mul_eq_mul_div]
  unfold decimalOrder
  generalize i.value * twoPow i.unit.toNat * tenPow 400 = a at *
  have some : a / twoPow (-i.unit).toNat ≠ 0 := by
    have low := one_le_place_mul nonzero
    rw [scaled, le_div_iff₀ bottom, one_mul, Nat.cast_le] at low
    exact (Nat.div_pos low (twoPow_pos _)).ne'
  generalize size : a / twoPow (-i.unit).toNat = n at some
  have digits : 0 < Decimal.width n := Nat.length_toDigits_pos
  have low := Decimal.tenPow_le_of_lt_width some (Nat.sub_one_lt digits.ne')
  have order : (Decimal.width n : ℤ) - 400 - 1 = (Decimal.width n - 1 : ℕ) - (400 : ℕ) := by omega
  rw [order, zpow_sub₀ (by norm_num), zpow_natCast, zpow_natCast, div_le_iff₀ (by positivity), scaled]
  calc (10 : ℚ) ^ (Decimal.width n - 1) ≤ n := by exact_mod_cast low
    _ ≤ a / twoPow (-i.unit).toNat := by rw [le_div_iff₀ bottom, ← size]; exact_mod_cast Nat.div_mul_le_self a _

/-- Seventeen digits are enough. -/
theorem holds_seventeen (x : Binary64) (nonzero : 0 < x.magnitude) (g : ℤ) (last : g = decimalOrder x.interval - 17) :
    x.interval.holds (x.interval.floor g) g = true ∨ x.interval.holds (x.interval.floor g + 1) g = true := by
  have around := around_interval x nonzero
  refine around.holds_of_near nonzero g ?_
  have wide := value_lt_interval x
  have most := around.tenPow_decimalOrder_le nonzero
  have unit : (0 : ℚ) < 2 ^ x.interval.unit := by positivity
  have grid : (10 : ℚ) ^ (decimalOrder x.interval - 1) = 10 ^ 16 * 10 ^ g := by
    rw [last, ← zpow_natCast, ← zpow_add₀ (by norm_num)]
    congr 1
    omega
  have cast : (x.interval.value + 10 ^ 16 * x.interval.low : ℚ) < 10 ^ 16 * x.interval.high := by exact_mod_cast wide
  rw [grid, ← around.value] at most
  rw [← around.low, ← around.high]
  have scaled := mul_lt_mul_of_pos_right cast unit
  linarith

/-- What is taken of the two neighbours reads back. -/
theorem Interval.holds_of_pick {i : Interval} {g : ℤ} {found : Nat × ℤ} (taken : i.pick g = some found) :
    i.holds found.1 found.2 = true := by
  unfold Interval.pick at taken
  dsimp only at taken
  split at taken
  next first _ => cases taken; exact first
  next second => cases taken; exact second
  next => contradiction
  next first second =>
    split at taken <;> cases taken
    · exact first
    · exact second
    · rcases Nat.mod_two_eq_zero_or_one (i.floor g) with even | odd
      · rwa [even]
      · rwa [odd]

theorem Interval.pick_ne_none {i : Interval} {g : ℤ}
    (some : i.holds (i.floor g) g = true ∨ i.holds (i.floor g + 1) g = true) : i.pick g ≠ none := by
  unfold Interval.pick
  dsimp only
  split
  · simp
  · simp
  next first second => simp [first, second] at some
  · split <;> simp

/-- The shortest text is rounded to the number itself. -/
theorem rounds_shortest (x : Binary64) (nonzero : 0 < x.magnitude) :
    Rounds (x.shortest.1 * 10 ^ x.shortest.2) x.magnitude := by
  rw [← (around_interval x nonzero).holds_iff]
  unfold shortest
  dsimp only
  cases found : (List.range 17).findSome? fun n : Nat => x.interval.pick (decimalOrder x.interval - (n + 1)) with
  | some pair =>
    obtain ⟨n, -, taken⟩ := List.exists_of_findSome?_eq_some found
    exact Interval.holds_of_pick taken
  | none =>
    -- The last of the grids has a neighbour that reads back.
    have missing := List.findSome?_eq_none_iff.1 found 16 (by simp)
    exact absurd missing (Interval.pick_ne_none (holds_seventeen x nonzero _ rfl))

theorem shortest_ne_zero (x : Binary64) (nonzero : 0 < x.magnitude) : x.shortest.1 ≠ 0 := by
  intro zero
  have rounds := rounds_shortest x nonzero
  rw [zero, Nat.cast_zero, zero_mul] at rounds
  exact nonzero.ne' rounds.eq_zero

end Binary64
end SqlSchema
