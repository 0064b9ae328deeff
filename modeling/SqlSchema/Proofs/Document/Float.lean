import SqlSchema.Proofs.Document.Number

/-! Binary numbers read back from JSON. However the digits of a finite number are laid out, they are a numeral in the shape
that JSON has, of the value that the digits and their order of magnitude have. -/
namespace SqlSchema
open Binary64 Document.Json

namespace Written.Scientific

/-- A numeral that says how digits are laid out, where the first of them has the given order of magnitude. -/
structure Lays (n : Scientific) (digits : List Char) (order : ℤ) : Prop where
  strict : n.Strict
  chars : n.chars = n.sign.chars ++ layDigits layout digits order
  value : |n.value| = digitsValue digits * 10 ^ (order + 1 - digits.length)

theorem abs_value (n : Scientific) :
    |n.value| = (digitsValue n.whole + digitsValue n.places / 10 ^ n.places.length) * 10 ^ n.exponent := by
  have size : (0 : ℚ) ≤ (digitsValue n.whole + digitsValue n.places / 10 ^ n.places.length) * 10 ^ n.exponent := by
    positivity
  have unit : |(n.sign.apply 1 : ℚ)| = 1 := by cases n.sign <;> simp [Sign.apply]
  rw [value, mul_assoc, abs_mul, unit, one_mul, abs_of_nonneg size]

end Written.Scientific

namespace Binary64
open Written

variable {sign : Sign} {first : Char} {more : List Char} {order : ℤ}

/-- Small numbers have zeros behind the point. -/
theorem exists_lays_below (plain : sign ≠ .plus) (decimal : ∀ c ∈ first :: more, c.isDigit = true)
    (low : -4 ≤ order) (high : order < 0) :
    ∃ n : Scientific, n.sign = sign ∧ n.Lays (first :: more) order := by
  refine ⟨⟨sign, ['0'], some (List.replicate (-order - 1).toNat '0' ++ first :: more), none, by simp, ?_⟩, rfl,
    ⟨plain, rfl, by simp, .inl (by simp)⟩, ?_, ?_⟩
  · simp only [Option.getD_some, List.forall_mem_append, List.forall_mem_singleton]
    exact ⟨rfl, isDigit_of_mem_zeros, decimal⟩
  · have inside : layout.lowest ≤ order ∧ order ≤ layout.highest := ⟨low, high.le.trans (by decide)⟩
    simp [Scientific.chars, Scientific.pointed, Scientific.exponentChars, layDigits, inside, high]
  · have none : digitsValue ['0'] = 0 := rfl
    have power : order + 1 - (first :: more).length =
        -((List.replicate (-order - 1).toNat '0' ++ first :: more).length : ℤ) := by
      rw [List.length_append, List.length_replicate]
      omega
    rw [Scientific.abs_value, power, zpow_neg, zpow_natCast]
    simp only [Scientific.places, Scientific.exponent, Option.getD_some, Option.map_none, Option.getD_none, zpow_zero,
      digitsValue_zeros_append, none, Nat.cast_zero, zero_add, mul_one]
    rfl

/-- Numbers of a moderate size have a point among the digits, or zeros up to the point. -/
theorem exists_lays_inside (plain : sign ≠ .plus) (decimal : ∀ c ∈ first :: more, c.isDigit = true) (leading : first ≠ '0')
    (low : 0 ≤ order) (high : order ≤ 15) : ∃ n : Scientific, n.sign = sign ∧ n.Lays (first :: more) order := by
  obtain ⟨front, rfl⟩ := Int.eq_ofNat_of_zero_le low
  have inside : layout.lowest ≤ (front : ℤ) ∧ (front : ℤ) ≤ layout.highest := ⟨le_trans (by decide) low, high⟩
  have nonneg : ¬ (front : ℤ) < 0 := by omega
  have led (behind : List Char) : leads (first :: behind) = true := leads_of_head? (by simp) (by simpa using leading)
  rw [List.forall_mem_cons] at decimal
  obtain ⟨digit, digits⟩ := decimal
  rcases Nat.lt_or_ge front more.length with short | long
  · refine ⟨⟨sign, first :: more.take front, some (more.drop front), none, by simp, ?_⟩, rfl,
      ⟨plain, led _, by simp [short], .inl (by simp)⟩, ?_, ?_⟩
    · rw [Option.getD_some, List.cons_append, List.take_append_drop, List.forall_mem_cons]
      exact ⟨digit, digits⟩
    · have none : front + 1 - (more.length + 1) = 0 := by omega
      simp [Scientific.chars, Scientific.pointed, Scientific.exponentChars, layDigits, inside, nonneg, none, short]
    · have split := digitsValue_split (first :: more) (front + 1)
      have power : (front : ℤ) + 1 - (first :: more).length = -((more.drop front).length : ℤ) := by
        rw [List.length_cons, List.length_drop]
        omega
      rw [Scientific.abs_value, power, zpow_neg, zpow_natCast]
      simp only [Scientific.places, Scientific.exponent, Option.getD_some, Option.map_none, Option.getD_none, zpow_zero,
        mul_one]
      exact split
  · refine ⟨⟨sign, first :: more ++ List.replicate (front - more.length) '0', some ['0'], none, by simp, ?_⟩, rfl,
      ⟨plain, led _, by simp, .inl (by simp)⟩, ?_, ?_⟩
    · rw [Option.getD_some, List.forall_mem_append, List.forall_mem_append, List.forall_mem_cons, List.forall_mem_singleton]
      exact ⟨⟨⟨digit, digits⟩, isDigit_of_mem_zeros⟩, rfl⟩
    · simp [Scientific.chars, Scientific.pointed, Scientific.exponentChars, layDigits, inside, nonneg, long,
        List.take_of_length_le]
    · have none : digitsValue ['0'] = 0 := rfl
      have power : (front : ℤ) + 1 - (first :: more).length = (front - more.length : ℕ) := by
        rw [List.length_cons]
        omega
      rw [Scientific.abs_value, power, zpow_natCast]
      simp only [Scientific.places, Scientific.exponent, Option.getD_some, Option.map_none, Option.getD_none, zpow_zero,
        mul_one, digitsValue_append_zeros, none]
      push_cast
      simp

/-- An exponent has a sign and at least a given number of digits. -/
theorem exists_power (order : ℤ) (width : Nat) : ∃ p : Power, p.figures.value = order ∧
    p.chars = ['e', if order < 0 then '-' else '+'] ++ List.replicate (width - (Nat.toDigits 10 order.natAbs).length) '0' ++
      Nat.toDigits 10 order.natAbs := by
  refine ⟨⟨'e', Figures.ofNat (if order < 0 then .minus else .plus)
    (width - (Nat.toDigits 10 order.natAbs).length) order.natAbs, .inl rfl⟩, ?_, ?_⟩
  · rw [Figures.value, Figures.ofNat, digitsValue_toDigits]
    split
    · simp only [Sign.apply]
      omega
    · simp only [Sign.apply]
      omega
  · simp only [Power.chars, Figures.chars, Figures.ofNat]
    split
    · simp [Sign.chars]
    · simp [Sign.chars]

/-- Other numbers have an exponent. -/
theorem exists_lays_beyond (plain : sign ≠ .plus) (decimal : ∀ c ∈ first :: more, c.isDigit = true) (leading : first ≠ '0')
    (beyond : order < -4 ∨ 15 < order) : ∃ n : Scientific, n.sign = sign ∧ n.Lays (first :: more) order := by
  have outside : ¬ (layout.lowest ≤ order ∧ order ≤ layout.highest) := by
    change ¬ (-4 ≤ order ∧ order ≤ 15)
    omega
  obtain ⟨p, value, chars⟩ := exists_power order layout.exponentWidth
  have led : leads [first] = true := leads_of_head? (by simp) (by simpa using leading)
  have places : (if more = [] then none else some more).getD [] = more := by split <;> simp_all
  refine ⟨⟨sign, [first], if more = [] then none else some more, some p, by simp, by simpa [places] using decimal⟩, rfl,
    ⟨plain, led, by split <;> simp_all, .inr (by simp)⟩, ?_, ?_⟩
  · have exponent : (Option.map Power.chars (some p)).getD [] = p.chars := rfl
    simp only [Scientific.chars, Scientific.pointed, Scientific.exponentChars, layDigits, outside, exponent, chars]
    cases more <;> simp
  · have split := digitsValue_split (first :: more) 1
    have power : order + 1 - (first :: more).length = order - more.length := by
      rw [List.length_cons]
      omega
    rw [Scientific.abs_value, power, zpow_sub₀ (by norm_num), zpow_natCast, mul_div_assoc', mul_div_right_comm]
    simp only [Scientific.places, places, Scientific.exponent, Option.map_some, Option.getD_some, value]
    exact congrArg (· * (10 : ℚ) ^ order) split

theorem exists_lays {digits : List Char} (plain : sign ≠ .plus) (filled : digits ≠ [])
    (decimal : ∀ c ∈ digits, c.isDigit = true) (leading : digits.head? ≠ some '0') (order : ℤ) :
    ∃ n : Scientific, n.sign = sign ∧ n.Lays digits order := by
  obtain ⟨first, more, rfl⟩ := List.exists_cons_of_ne_nil filled
  have leading : first ≠ '0' := by simpa using leading
  by_cases beyond : order < -4 ∨ 15 < order
  · exact exists_lays_beyond plain decimal leading beyond
  · rcases lt_or_ge order 0 with below | inside
    · exact exists_lays_below plain decimal (by omega) below
    · exact exists_lays_inside plain decimal leading inside (by omega)

/-- The zeros at the end of digits can be put back. -/
theorem exists_zeros (digits : List Char) :
    ∃ zeros, digits = (digits.reverse.dropWhile (· == '0')).reverse ++ List.replicate zeros '0' := by
  refine ⟨(digits.reverse.takeWhile (· == '0')).length, ?_⟩
  have zeros : digits.reverse.takeWhile (· == '0') = List.replicate (digits.reverse.takeWhile (· == '0')).length '0' :=
    List.eq_replicate_of_mem fun c member => by simpa using List.mem_takeWhile_imp member
  rw [← List.reverse_replicate, ← zeros, ← List.reverse_append, List.takeWhile_append_dropWhile, List.reverse_reverse]

/-- The digits of a coefficient and a power of ten are laid out as a numeral of their product. -/
theorem exists_lays_coefficient (plain : sign ≠ .plus) (c : Nat) (nonzero : c ≠ 0) (g : ℤ) :
    ∃ n : Scientific, n.sign = sign ∧ n.Strict ∧ |n.value| = c * 10 ^ g ∧
      n.chars = sign.chars ++ layDigits layout ((Nat.toDigits 10 c).reverse.dropWhile (· == '0')).reverse
        (g + (Nat.toDigits 10 c).length - 1) := by
  obtain ⟨zeros, whole⟩ := exists_zeros (Nat.toDigits 10 c)
  have value := digitsValue_toDigits 0 c
  rw [List.replicate_zero, List.nil_append] at value
  have leading := head?_toDigits c nonzero
  have decimal : ∀ d ∈ Nat.toDigits 10 c, d.isDigit = true := fun d member =>
    Nat.isDigit_of_mem_toDigits (by decide) (by decide) member
  generalize ((Nat.toDigits 10 c).reverse.dropWhile (· == '0')).reverse = digits at *
  rw [whole] at value leading decimal
  rw [digitsValue_append_zeros] at value
  have filled : digits ≠ [] := by
    rintro rfl
    rw [show digitsValue [] = 0 from rfl, Nat.zero_mul] at value
    exact nonzero value.symm
  have leading : digits.head? ≠ some '0' := by
    obtain ⟨first, more, rfl⟩ := List.exists_cons_of_ne_nil filled
    exact leading
  obtain ⟨n, signed, lays⟩ := exists_lays plain filled (List.forall_mem_append.1 decimal).1 leading
    (g + (Nat.toDigits 10 c).length - 1)
  refine ⟨n, signed, lays.strict, ?_, signed ▸ lays.chars⟩
  have power : g + (Nat.toDigits 10 c).length - 1 + 1 - digits.length = zeros + g := by
    rw [whole, List.length_append, List.length_replicate]
    push_cast
    ring
  rw [lays.value, power, zpow_add₀ (by norm_num), zpow_natCast, ← mul_assoc, ← value]
  push_cast
  rfl

/-- The text of a finite number is a numeral in the shape that JSON has, and rounded to the number. -/
theorem exists_strict_text (x : Binary64) (finite : x.IsFinite) : ∃ n : Scientific, n.Strict ∧ n.chars = x.text.toList ∧
    x.negative = n.negative ∧ Rounds |n.value| x.magnitude := by
  have number : ¬ infinity < x.magnitude := not_lt.2 finite.le
  obtain ⟨sign, plain, signed, chars⟩ : ∃ sign : Sign, sign ≠ .plus ∧ x.negative = decide (sign = .minus) ∧
      ∀ cs, (if x.negative then '-' :: cs else cs) = sign.chars ++ cs := by
    cases x.negative with
    | false => exact ⟨.none, by decide, rfl, fun _ => rfl⟩
    | true => exact ⟨.minus, by decide, rfl, fun _ => rfl⟩
  unfold text
  dsimp only
  rw [if_neg number, String.toList_ofList, chars]
  by_cases zero : x.magnitude = 0
  · let n : Scientific := ⟨sign, ['0'], some ['0'], none, by simp, by decide⟩
    have value : |n.value| = 0 := by
      rw [Scientific.abs_value, show digitsValue n.whole = 0 from rfl, show digitsValue n.places = 0 from rfl]
      simp
    refine ⟨n, ⟨plain, rfl, by simp [n], .inl (by simp [n])⟩, ?_, signed, ?_⟩
    · rw [if_pos zero]
      rfl
    · rw [value, zero]
      exact rounds_zero
  · have positive := Nat.pos_of_ne_zero zero
    obtain ⟨n, rfl, strict, value, same⟩ :=
      exists_lays_coefficient plain x.shortest.1 (shortest_ne_zero x positive) x.shortest.2
    refine ⟨n, strict, ?_, signed, value ▸ rounds_shortest x positive⟩
    rw [if_neg zero, if_neg finite.ne, same]

/-- A finite number is read back from its text, with all its bits. -/
theorem number?_text (x : Binary64) (finite : x.IsFinite) : number? x.text.toList = some (.float x) := by
  obtain ⟨n, strict, chars, sign, rounds⟩ := exists_strict_text x finite
  rw [← chars]
  exact strict.number?_chars finite sign rounds

end Binary64
end SqlSchema
