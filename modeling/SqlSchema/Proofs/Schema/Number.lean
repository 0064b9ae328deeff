import SqlSchema.Proofs.Number.Nearest
import SqlSchema.Proofs.Definition.Malformed
import SqlSchema.Proofs.Schema.Table
import SqlSchema.Proofs.Written.Scientific

/-! Decoded numbers. A literal is decoded to the number that is written, as far as there is room for it: integers exactly if
they have 64 bits, other numbers to the nearest binary one. -/
namespace SqlSchema
open Attempt Written

/-! What the decoder takes for a number is written as one. -/

theorem exists_sign (cs : List Char) :
    ∃ sign : Sign, ∃ rest, cs = sign.chars ++ rest ∧ takeSign cs = (decide (sign = .minus), rest) := by
  unfold takeSign
  split
  next rest => exact ⟨.minus, rest, rfl, rfl⟩
  next rest => exact ⟨.plus, rest, rfl, rfl⟩
  next => exact ⟨.none, cs, rfl, rfl⟩

theorem exists_digits (cs : List Char) :
    ∃ digits rest, cs = digits ++ rest ∧ takeDigits cs = (digits, rest) ∧ ∀ c ∈ digits, Char.isDigit c = true :=
  ⟨_, _, List.takeWhile_append_dropWhile.symm, rfl, fun _ member => List.mem_takeWhile_imp member⟩

theorem exists_figures_of_integerOf? {cs : List Char} {v : Int} (read : integerOf? cs = some v) :
    ∃ n : Figures, n.chars = cs := by
  obtain ⟨sign, unsigned, rfl, signed⟩ := exists_sign cs
  obtain ⟨digits, after, rfl, taken, decimal⟩ := exists_digits unsigned
  unfold integerOf? at read
  rw [signed] at read
  dsimp only at read
  rw [taken] at read
  split at read
  next => contradiction
  next whole =>
    simp only [Bool.or_eq_true, List.isEmpty_iff, Bool.not_eq_true', not_or, Bool.not_eq_false] at whole
    obtain ⟨filled, rfl⟩ := whole
    exact ⟨⟨sign, digits, filled, decimal⟩, by rw [Figures.chars, List.append_nil]⟩

theorem exists_power_of_readExponent? {cs : List Char} {e : Int} (read : Decimal.readExponent? cs = some e) :
    ∃ power : Option Power, (power.map Power.chars).getD [] = cs := by
  cases cs with
  | nil => exact ⟨none, rfl⟩
  | cons c rest =>
    obtain ⟨sign, unsigned, rfl, signed⟩ := exists_sign rest
    obtain ⟨digits, after, rfl, taken, decimal⟩ := exists_digits unsigned
    rw [Decimal.readExponent?] at read
    split at read
    next letter =>
      rw [signed] at read
      dsimp only at read
      rw [taken] at read
      split at read
      next => contradiction
      next whole =>
        simp only [Bool.or_eq_true, List.isEmpty_iff, Bool.not_eq_true', not_or, Bool.not_eq_false] at whole
        obtain ⟨filled, rfl⟩ := whole
        exact ⟨some ⟨c, ⟨sign, digits, filled, decimal⟩, letter⟩, by simp [Power.chars, Figures.chars]⟩
    next => contradiction

theorem exists_scientific_of_read? {cs : List Char} {x : Decimal} (read : Decimal.read? cs = some x) :
    ∃ n : Scientific, n.chars = cs := by
  obtain ⟨sign, unsigned, rfl, signed⟩ := exists_sign cs
  obtain ⟨whole, behind, rfl, front, decimal⟩ := exists_digits unsigned
  unfold Decimal.read? at read
  rw [signed] at read
  dsimp only at read
  rw [front] at read
  dsimp only at read
  split at read
  next rest =>
    obtain ⟨fraction, after, rfl, back, places⟩ := exists_digits rest
    rw [back] at read
    split at read
    next => contradiction
    next filled =>
      obtain ⟨e, exponent, -⟩ := Option.map_eq_some_iff.mp read
      obtain ⟨power, rfl⟩ := exists_power_of_readExponent? exponent
      simp only [Bool.and_eq_true, List.isEmpty_iff, not_and] at filled
      exact ⟨⟨sign, whole, some fraction, power, by simpa using filled, List.forall_mem_append.mpr ⟨decimal, places⟩⟩,
        by simp [Scientific.chars, Scientific.pointed, Scientific.exponentChars]⟩
  next =>
    split at read
    next => contradiction
    next filled =>
      obtain ⟨e, exponent, -⟩ := Option.map_eq_some_iff.mp read
      obtain ⟨power, rfl⟩ := exists_power_of_readExponent? exponent
      simp only [List.isEmpty_nil, Bool.and_true, List.isEmpty_iff] at filled
      exact ⟨⟨sign, whole, none, power, by simpa using filled, by simpa using decimal⟩,
        by simp [Scientific.chars, Scientific.pointed, Scientific.exponentChars]⟩

/-! Integers. -/

/-- What is decoded depends on the digits and on what they stand for. -/
theorem decodeInteger_chars {raw : String} (n : Figures) (same : n.chars = raw.toList) :
    decodeInteger raw =
      if Interruption.digitLimit < n.digits.length then interrupt (.integerTooLong n.digits.length)
      else if fitsWord n.value then pure n.value
      else throw (.malformedNumber .integer raw) := by
  unfold decodeInteger
  dsimp only
  rw [← same, n.integerOf?_chars, numeralWidth, n.takeSign_chars]

theorem decodeInteger_eq_throw {raw : String} (other : ∀ n : Figures, n.chars ≠ raw.toList) :
    decodeInteger raw = throw (.malformedNumber .integer raw) := by
  unfold decodeInteger
  dsimp only
  split
  next n read =>
    obtain ⟨n, same⟩ := exists_figures_of_integerOf? read
    exact absurd same (other n)
  next => rfl

theorem digitsValue_toDigits (zeros n : Nat) :
    digitsValue (List.replicate zeros '0' ++ Nat.toDigits 10 n) = n := by
  change Nat.ofDigitChars 10 _ 0 = n
  rw [Nat.ofDigitChars_append, Nat.ofDigitChars_replicate_zero, Nat.mul_zero, Nat.ofDigitChars_ten_toDigits]

/-- The digits of a number behind zeros. -/
def Written.Figures.ofNat (sign : Sign) (zeros n : Nat) : Figures where
  sign := sign
  digits := List.replicate zeros '0' ++ Nat.toDigits 10 n
  filled := by simp [Nat.toDigits_ne_nil]
  decimal c member := by
    rcases List.mem_append.mp member with zero | digit
    · rw [List.eq_of_mem_replicate zero]
      rfl
    · exact Nat.isDigit_of_mem_toDigits (by decide) (by decide) digit

/-- A text that is no integer is malformed. An integer that is too long interrupts; another one is decoded if it has 64
bits, and is malformed otherwise. So the digits of every number of 64 bits are decoded to it, behind as many zeros as there
is room for. -/
theorem Value.ofLiteral_integer_exact (raw : String) :
    ((∀ n : Figures, n.chars ≠ raw.toList) → (ofLiteral ⟨.integer, raw⟩).Rejects (.malformedNumber .integer raw)) ∧
    (∀ n : Figures, n.chars = raw.toList →
      (4300 < n.digits.length → (ofLiteral ⟨.integer, raw⟩).Stops (.integerTooLong n.digits.length)) ∧
      (n.digits.length ≤ 4300 → -2 ^ 63 ≤ n.value → n.value ≤ 2 ^ 63 - 1 →
        (ofLiteral ⟨.integer, raw⟩).Gives (some (.integer raw n.value))) ∧
      (n.digits.length ≤ 4300 → n.value < -2 ^ 63 ∨ 2 ^ 63 - 1 < n.value →
        (ofLiteral ⟨.integer, raw⟩).Rejects (.malformedNumber .integer raw))) ∧
    ∀ (v : Int) (sign : Sign) (zeros : Nat), sign.apply v.natAbs = v → -2 ^ 63 ≤ v → v ≤ 2 ^ 63 - 1 →
      zeros + (Nat.toDigits 10 v.natAbs).length ≤ 4300 →
      raw.toList = sign.chars ++ (List.replicate zeros '0' ++ Nat.toDigits 10 v.natAbs) →
      (ofLiteral ⟨.integer, raw⟩).Gives (some (.integer raw v)) := by
  have gives (n : Figures) (same : n.chars = raw.toList) (short : n.digits.length ≤ 4300) (low : -2 ^ 63 ≤ n.value)
      (high : n.value ≤ 2 ^ 63 - 1) : (ofLiteral ⟨.integer, raw⟩).Gives (some (.integer raw n.value)) := by
    have short : ¬ Interruption.digitLimit < n.digits.length := Nat.not_lt.2 short
    have fits : fitsWord n.value = true := eq_true_of_ne_false fun wide => by
      have great := (fitsWord_eq_false_iff _).1 wide
      omega
    simp [ofLiteral, decodeInteger_chars n same, short, fits]
  refine ⟨fun other => ?_, fun n same => ⟨fun long => ?_, gives n same, fun short great => ?_⟩, ?_⟩
  · simp [ofLiteral, decodeInteger_eq_throw other]
  · have long : Interruption.digitLimit < n.digits.length := long
    simp [ofLiteral, decodeInteger_chars n same, long]
  · have short : ¬ Interruption.digitLimit < n.digits.length := Nat.not_lt.2 short
    have wide : fitsWord n.value = false := (fitsWord_eq_false_iff _).2 (by omega)
    simp [ofLiteral, decodeInteger_chars n same, short, wide]
  · intro v sign zeros signed low high short same
    have whole : (Figures.ofNat sign zeros v.natAbs).value = v := by
      rw [Figures.value, Figures.ofNat, digitsValue_toDigits, signed]
    have given := gives (.ofNat sign zeros v.natAbs) same.symm (by simpa [Figures.ofNat] using short)
    rw [whole] at given
    exact given low high

/-- The least number of 64 bits with zeros, the one beyond the greatest, too many zeros, and a space. -/
theorem Value.ofLiteral_integer_exact_bounds :
    (ofLiteral ⟨.integer, "-009223372036854775808"⟩).Gives
        (some (.integer "-009223372036854775808" (-9223372036854775808))) ∧
      (ofLiteral ⟨.integer, "9223372036854775808"⟩).Rejects (.malformedNumber .integer "9223372036854775808") ∧
      (ofLiteral ⟨.integer, String.ofList ('+' :: List.replicate 4301 '0')⟩).Stops (.integerTooLong 4301) ∧
      (ofLiteral ⟨.integer, "1 "⟩).Rejects (.malformedNumber .integer "1 ") := by
  refine ⟨?_, ?_, ?_, ?_⟩
  · exact (ofLiteral_integer_exact "-009223372036854775808").2.2 (-9223372036854775808) .minus 2 rfl (by decide)
      (by decide) (by decide) (by decide)
  · exact ((ofLiteral_integer_exact "9223372036854775808").2.1
      ⟨.none, "9223372036854775808".toList, by decide, by decide⟩ rfl).2.2 (by decide) (.inr (by decide))
  · have figures := (ofLiteral_integer_exact (String.ofList ('+' :: List.replicate 4301 '0'))).2.1
      ⟨.plus, List.replicate 4301 '0', fun none => Nat.succ_ne_zero _ ((List.replicate_eq_nil_iff _).1 none),
        fun c member => List.eq_of_mem_replicate member ▸ rfl⟩
      (by rw [String.toList_ofList]; rfl)
    have long := figures.1
    dsimp only at long
    rw [List.length_replicate] at long
    exact long (by decide)
  · refine (ofLiteral_integer_exact "1 ").1 fun n same => ?_
    have space : ' ' ∈ n.chars := same ▸ by decide
    rcases n.mem_chars ' ' space with digit | sign
    · exact absurd digit (by decide)
    · exact absurd sign (by decide)

/-! Other numbers. -/

namespace Written.Scientific

variable (n : Scientific)

/-- The sign that is written, which zero has too. -/
def negative : Bool := decide (n.sign = .minus)

theorem exists_decimal : ∃ x, Decimal.read? n.chars = some x ∧ x.negative = n.negative ∧ x.value = n.value := by
  obtain ⟨x, read, value⟩ := n.exists_read?_chars
  cases read.symm.trans n.read?_chars
  exact ⟨_, read, rfl, value⟩

theorem value_eq_abs : n.value = (if n.negative then -1 else 1) * |n.value| := by
  obtain ⟨x, -, sign, value⟩ := n.exists_decimal
  rw [← sign, ← value]
  exact x.value_eq_abs

variable {n} {raw : String} (same : n.chars = raw.toList)
include same

theorem gives_decodeFloat_iff (x : Binary64) :
    (decodeFloat raw).Gives x ↔ x.IsFinite ∧ x.negative = n.negative ∧ Binary64.Rounds |n.value| x.magnitude := by
  obtain ⟨y, read, sign, value⟩ := n.exists_decimal
  rw [← sign, ← value, ← y.toBinary64?_eq_some_iff, decodeFloat, ← same, read, Option.bind_some]
  split
  next z rounded => simp [rounded]
  next missing => simp [missing]

theorem rejects_decodeFloat_of_overflow (great : Binary64.overflow ≤ |n.value|) :
    (decodeFloat raw).Rejects (.malformedNumber .float raw) := by
  obtain ⟨y, read, -, value⟩ := n.exists_decimal
  rw [← value, ← y.toBinary64?_eq_none_iff] at great
  simp [decodeFloat, ← same, read, great]

theorem exists_gives_decodeFloat (small : |n.value| < Binary64.overflow) : ∃ x, (decodeFloat raw).Gives x := by
  obtain ⟨y, read, -, value⟩ := n.exists_decimal
  rw [← value, ← not_le, ← y.toBinary64?_eq_none_iff] at small
  obtain ⟨x, rounded⟩ := Option.ne_none_iff_exists'.1 small
  exact ⟨x, by simp [decodeFloat, ← same, read, rounded]⟩

theorem nearest_of_gives {x : Binary64} (given : (decodeFloat raw).Gives x) : x.Nearest n.value := by
  obtain ⟨finite, sign, rounds⟩ := (gives_decodeFloat_iff same x).1 given
  exact rounds.nearest finite (sign ▸ n.value_eq_abs)

theorem value_le_of_gives {m : Scientific} {other : String} (written : m.chars = other.toList) {x y : Binary64}
    (first : (decodeFloat raw).Gives x) (second : (decodeFloat other).Gives y) (le : n.value ≤ m.value) :
    x.value ≤ y.value := by
  rcases le.lt_or_eq with less | equal
  · exact (nearest_of_gives same first).value_le (nearest_of_gives written second) less
  · obtain ⟨-, one, low⟩ := (gives_decodeFloat_iff same x).1 first
    obtain ⟨-, two, high⟩ := (gives_decodeFloat_iff written y).1 second
    rw [← equal] at high
    exact (low.value_eq high (one ▸ n.value_eq_abs) (two ▸ equal ▸ m.value_eq_abs)).le

end Written.Scientific

theorem decodeFloat_eq_throw {raw : String} (other : ∀ n : Scientific, n.chars ≠ raw.toList) :
    decodeFloat raw = throw (.malformedNumber .float raw) := by
  unfold decodeFloat
  split
  next x decoded =>
    obtain ⟨y, read, -⟩ := Option.bind_eq_some_iff.1 decoded
    obtain ⟨n, same⟩ := exists_scientific_of_read? read
    exact absurd same (other n)
  next => rfl

theorem gives_float_iff (raw : String) (x : Binary64) :
    (Value.ofLiteral ⟨.float, raw⟩).Gives (some (.float raw x)) ↔ (decodeFloat raw).Gives x := by
  simp [Value.ofLiteral]

/-- A text that is no number, or one that is too great, is malformed. Another number is decoded to the nearest binary one
with its sign, and so in the same way however it is written, and never to a lower one than a lower number. -/
theorem Value.ofLiteral_float_exact (raw : String) :
    ((∀ n : Scientific, n.chars ≠ raw.toList) → (ofLiteral ⟨.float, raw⟩).Rejects (.malformedNumber .float raw)) ∧
    ∀ n : Scientific, n.chars = raw.toList →
      (2 ^ (1024 : ℤ) - 2 ^ (970 : ℤ) ≤ |n.value| →
        (ofLiteral ⟨.float, raw⟩).Rejects (.malformedNumber .float raw)) ∧
      (|n.value| < 2 ^ (1024 : ℤ) - 2 ^ (970 : ℤ) →
        ∃ x, (ofLiteral ⟨.float, raw⟩).Gives (some (.float raw x)) ∧ x.Nearest n.value ∧ x.negative = n.negative) ∧
      ∀ (other : String) (m : Scientific), m.chars = other.toList →
        (n.negative = m.negative → n.value = m.value → ∀ x,
          (ofLiteral ⟨.float, raw⟩).Gives (some (.float raw x)) ↔
            (ofLiteral ⟨.float, other⟩).Gives (some (.float other x))) ∧
        (n.value ≤ m.value → ∀ x y, (ofLiteral ⟨.float, raw⟩).Gives (some (.float raw x)) →
          (ofLiteral ⟨.float, other⟩).Gives (some (.float other y)) → x.value ≤ y.value) := by
  refine ⟨fun other => ?_, fun n same => ⟨fun great => ?_, fun small => ?_, fun other m written => ⟨?_, ?_⟩⟩⟩
  · simp [ofLiteral, decodeFloat_eq_throw other]
  · simpa [ofLiteral] using Scientific.rejects_decodeFloat_of_overflow same great
  · obtain ⟨x, given⟩ := Scientific.exists_gives_decodeFloat same small
    exact ⟨x, (gives_float_iff raw x).2 given, Scientific.nearest_of_gives same given,
      ((Scientific.gives_decodeFloat_iff same x).1 given).2.1⟩
  · intro sign value x
    rw [gives_float_iff, gives_float_iff, Scientific.gives_decodeFloat_iff same,
      Scientific.gives_decodeFloat_iff written, sign, value]
  · intro le x y first second
    exact Scientific.value_le_of_gives same written ((gives_float_iff raw x).1 first) ((gives_float_iff other y).1 second) le

/-- A number in the middle of a step, zero with a sign, one number in two ways, a number that is too great, and a space. -/
theorem Value.ofLiteral_float_exact_middle :
    (∃ x, (ofLiteral ⟨.float, ".500000000000000055511151231257827021181583404541015625"⟩).Gives
        (some (.float ".500000000000000055511151231257827021181583404541015625" x)) ∧
        x.Nearest (1 / 2 + 1 / 2 ^ 54) ∧ x.negative = false) ∧
      (∃ x, (ofLiteral ⟨.float, "-0e9"⟩).Gives (some (.float "-0e9" x)) ∧ x.Nearest 0 ∧ x.negative = true) ∧
      (∀ x, (ofLiteral ⟨.float, "1.5"⟩).Gives (some (.float "1.5" x)) ↔
        (ofLiteral ⟨.float, "+.15E1"⟩).Gives (some (.float "+.15E1" x))) ∧
      (ofLiteral ⟨.float, "1e400"⟩).Rejects (.malformedNumber .float "1e400") ∧
      (ofLiteral ⟨.float, "1.5 "⟩).Rejects (.malformedNumber .float "1.5 ") := by
  have small {v : ℚ} (fraction : |v| < 1) : |v| < 2 ^ (1024 : ℤ) - 2 ^ (970 : ℤ) :=
    fraction.trans Binary64.one_lt_overflow
  have one : '1'.toNat - '0'.toNat = 1 := rfl
  have five : '5'.toNat - '0'.toNat = 5 := rfl
  refine ⟨?_, ?_, ?_, ?_, ?_⟩
  · let n : Scientific :=
      ⟨.none, [], some "500000000000000055511151231257827021181583404541015625".toList, none, by decide, by decide⟩
    have places : digitsValue n.places = 500000000000000055511151231257827021181583404541015625 := by decide
    have value : n.value = 1 / 2 + 1 / 2 ^ 54 := by
      rw [Scientific.value, places, show n.places.length = 54 from rfl]
      norm_num [n, Scientific.exponent, Sign.apply, digitsValue]
    have given := ((ofLiteral_float_exact ".500000000000000055511151231257827021181583404541015625").2 n (by decide)).2.1
      (small (by rw [value]; norm_num))
    rwa [value] at given
  · let n : Scientific :=
      ⟨.minus, ['0'], none, some ⟨'e', ⟨.none, ['9'], by decide, by decide⟩, .inl rfl⟩, by decide, by decide⟩
    have value : n.value = 0 := by simp [n, Scientific.value, Scientific.places, digitsValue]
    have given := ((ofLiteral_float_exact "-0e9").2 n (by decide)).2.1 (small (by rw [value]; norm_num))
    rwa [value] at given
  · let n : Scientific := ⟨.none, ['1'], some ['5'], none, by decide, by decide⟩
    let m : Scientific :=
      ⟨.plus, [], some ['1', '5'], some ⟨'E', ⟨.none, ['1'], by decide, by decide⟩, .inr rfl⟩, by decide, by decide⟩
    have value : n.value = m.value := by
      norm_num [n, m, Scientific.value, Scientific.places, Scientific.exponent, Figures.value, Sign.apply, digitsValue,
        one, five]
    exact (((ofLiteral_float_exact "1.5").2 n (by decide)).2.2 "+.15E1" m (by decide)).1 rfl value
  · let n : Scientific :=
      ⟨.none, ['1'], none, some ⟨'e', ⟨.none, ['4', '0', '0'], by decide, by decide⟩, .inl rfl⟩, by decide, by decide⟩
    have value : n.value = 10 ^ (400 : ℤ) := by
      have power : n.exponent = 400 := rfl
      rw [Scientific.value, power]
      norm_num [n, Scientific.places, Sign.apply, digitsValue, one]
    refine ((ofLiteral_float_exact "1e400").2 n (by decide)).1 ?_
    rw [value, abs_of_pos (by positivity)]
    exact Binary64.overflow_le_tenPow
  · refine (ofLiteral_float_exact "1.5 ").1 fun n same => ?_
    obtain ⟨x, read, -⟩ := n.exists_decimal
    rw [same] at read
    have none : Decimal.read? "1.5 ".toList = none := by decide
    rw [none] at read
    contradiction

end SqlSchema
