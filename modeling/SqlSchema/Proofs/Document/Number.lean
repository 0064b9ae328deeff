import SqlSchema.Proofs.Document.Reader
import SqlSchema.Proofs.Number.Shortest
import SqlSchema.Proofs.Schema.Number

/-! Numbers read back from JSON. A whole number is read back from its digits. A binary number is read back from its
shortest text, because that is rounded to it, and the sign of zero is kept. -/
namespace SqlSchema

/-! Digits. -/

theorem isDigit_of_mem_zeros {zeros : Nat} : ∀ c ∈ List.replicate zeros '0', c.isDigit = true := fun c member => by
  rw [List.eq_of_mem_replicate member]
  rfl

theorem digitsValue_zeros_append (zeros : Nat) (digits : List Char) :
    digitsValue (List.replicate zeros '0' ++ digits) = digitsValue digits := by
  have none : digitsValue (List.replicate zeros '0') = 0 := by
    change Nat.ofDigitChars 10 _ 0 = 0
    rw [Nat.ofDigitChars_replicate_zero, Nat.mul_zero]
  rw [digitsValue_append, none, Nat.zero_mul, Nat.zero_add]

theorem digitsValue_append_zeros (digits : List Char) (zeros : Nat) :
    digitsValue (digits ++ List.replicate zeros '0') = digitsValue digits * 10 ^ zeros := by
  have none := digitsValue_zeros_append zeros []
  rw [List.append_nil] at none
  rw [digitsValue_append, none, List.length_replicate]
  rfl

/-- A point among digits divides by a power of ten. -/
theorem digitsValue_split (digits : List Char) (front : Nat) :
    (digitsValue (digits.take front) + digitsValue (digits.drop front) / 10 ^ (digits.drop front).length : ℚ) =
      digitsValue digits / 10 ^ (digits.drop front).length := by
  have whole := digitsValue_append (digits.take front) (digits.drop front)
  rw [List.take_append_drop] at whole
  rw [whole]
  push_cast
  field_simp

theorem head?_toDigits (n : Nat) (nonzero : n ≠ 0) : (Nat.toDigits 10 n).head? ≠ some '0' := by
  induction n using Nat.strongRecOn with
  | ind n ih =>
    rcases Nat.lt_or_ge n 10 with few | many
    · rw [Nat.toDigits_of_lt_base few, List.head?_cons]
      simpa using nonzero
    · have front := ih (n / 10) (Nat.div_lt_self (by omega) (by omega)) (by omega)
      rw [Nat.toDigits_of_base_le (by omega) many, List.head?_append]
      obtain ⟨c, more, split⟩ := List.exists_cons_of_ne_nil (Nat.toDigits_ne_nil (n := n / 10) (b := 10))
      rw [split] at front ⊢
      exact front

namespace Document.Json
open Written

theorem leads_of_head? {digits : List Char} (filled : digits ≠ []) (head : digits.head? ≠ some '0') :
    leads digits = true := by
  obtain ⟨c, more, rfl⟩ := List.exists_cons_of_ne_nil filled
  have first : c ≠ '0' := by simpa using head
  simp [leads, first]

theorem leads_toDigits (n : Nat) : leads (Nat.toDigits 10 n) = true := by
  by_cases zero : n = 0
  · rw [zero]
    rfl
  · exact leads_of_head? Nat.toDigits_ne_nil (head?_toDigits n zero)

theorem takeDigits_unsigned {sign : Sign} {whole behind : List Char} (plain : sign ≠ .plus) (filled : whole ≠ [])
    (decimal : ∀ c ∈ whole, c.isDigit = true) (ended : behind.head?.any (·.isDigit) = false) :
    takeDigits (if (sign.chars ++ (whole ++ behind)).head? = some '-' then (sign.chars ++ (whole ++ behind)).tail
      else sign.chars ++ (whole ++ behind)) = (whole, behind) := by
  have digits := takeDigits_append decimal ended
  obtain ⟨first, more, rfl⟩ := List.exists_cons_of_ne_nil filled
  have unsigned := not_sign_of_isDigit (decimal first (List.mem_cons_self ..))
  cases sign with
  | none => simpa [Sign.chars, unsigned.2] using digits
  | plus => contradiction
  | minus => simpa [Sign.chars] using digits

/-! Whole numbers. -/

theorem number?_figures (n : Figures) (plain : n.sign ≠ .plus) (leading : leads n.digits = true) :
    number? n.chars = some (.integer n.value) := by
  have digits := @takeDigits_unsigned n.sign n.digits [] plain n.filled n.decimal rfl
  rw [List.append_nil] at digits
  rw [number?, Figures.chars, digits]
  dsimp only
  rw [leading, ← Figures.chars, n.integerOf?_chars]
  rfl

theorem toList_toString_int (v : Int) :
    (toString v).toList = (Figures.ofNat (if v < 0 then .minus else .none) 0 v.natAbs).chars := by
  cases v with
  | ofNat n =>
    change n.repr.toList = _
    rw [Nat.toList_repr]
    rfl
  | negSucc n =>
    change ("-" ++ (n + 1).repr).toList = _
    rw [String.toList_append, Nat.toList_repr, if_pos (Int.negSucc_lt_zero n)]
    rfl

theorem number?_integer (v : Int) : number? (toString v).toList = some (.integer v) := by
  rw [toList_toString_int, number?_figures]
  · rw [Figures.value, Figures.ofNat, digitsValue_toDigits]
    split
    next negative => rw [Sign.apply, Int.ofNat_natAbs_of_nonpos negative.le, Int.neg_neg]
    next nonneg => exact congrArg (some <| Document.integer ·) (Int.natAbs_of_nonneg (not_lt.1 nonneg))
  · unfold Figures.ofNat
    split <;> simp
  · exact leads_toDigits _

end Document.Json

/-! Numbers with a point or an exponent. -/

namespace Written.Scientific
open Document.Json

/-- The shape of such numbers in JSON. -/
structure Strict (n : Scientific) : Prop where
  sign : n.sign ≠ .plus
  leading : leads n.whole = true
  places : n.fraction ≠ some []
  broken : n.fraction ≠ none ∨ n.power ≠ none

variable {n : Scientific} (strict : n.Strict)
include strict

theorem Strict.filled : n.whole ≠ [] := by
  intro empty
  have leading := strict.leading
  rw [empty] at leading
  contradiction

theorem Strict.pointed : Document.Json.pointed (n.pointed ++ n.exponentChars) = true := by
  cases point : n.fraction with
  | some digits =>
    obtain ⟨c, more, split⟩ := List.exists_cons_of_ne_nil fun empty => strict.places (point.trans (congrArg some empty))
    have digit := n.decimal c (by simp [point, split])
    simp [Scientific.pointed, Document.Json.pointed, point, split, digit]
  | none =>
    have first := n.head?_exponentChars '.'
    simp only [Scientific.pointed, Document.Json.pointed, point, Option.map_none, Option.getD_none, List.nil_append,
      Bool.or_eq_true, bne_iff_ne]
    exact .inl fun head => by rcases first head with same | same <;> contradiction

theorem Strict.broken_off : (n.pointed ++ n.exponentChars).isEmpty = false := by
  rw [List.isEmpty_eq_false_iff]
  rcases strict.broken with point | power
  · obtain ⟨digits, point⟩ := Option.ne_none_iff_exists'.1 point
    simp [Scientific.pointed, point]
  · obtain ⟨p, power⟩ := Option.ne_none_iff_exists'.1 power
    simp [exponentChars, power, Power.chars]

/-- Such a number is read as the binary number to which it is rounded. -/
theorem Strict.number?_chars {x : Binary64} (finite : x.IsFinite) (sign : x.negative = n.negative)
    (rounds : Binary64.Rounds |n.value| x.magnitude) : number? n.chars = some (.float x) := by
  obtain ⟨y, read, same, value⟩ := n.exists_decimal
  have rounded : y.toBinary64? = some x := (y.toBinary64?_eq_some_iff x).2 ⟨finite, same ▸ sign, value ▸ rounds⟩
  have whole : ∀ c ∈ n.whole, c.isDigit = true := fun c member => n.decimal c (List.mem_append_left _ member)
  have digits := takeDigits_unsigned strict.sign strict.filled whole (head?_any_isDigit n.head?_pointed)
  rw [number?, chars, digits]
  dsimp only
  rw [← chars, strict.leading, strict.pointed, strict.broken_off, read]
  unfold Decimal.toBinary64? at rounded
  split at rounded
  next small =>
    cases rounded
    simp [Nat.min_eq_left (Nat.le_of_lt small)]
  next => contradiction

end Written.Scientific

end SqlSchema
