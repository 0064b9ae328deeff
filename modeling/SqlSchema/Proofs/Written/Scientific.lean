import SqlSchema.Proofs.Number.Overflow
import SqlSchema.Proofs.Reader.Numerals
import SqlSchema.Proofs.Written.Numeral

/-! Numbers with a point or an exponent, and what they stand for. The decoder reads all of them. What the reader takes
for a number is one of these, or has digits of another script. -/
namespace SqlSchema

theorem digitsValue_append (front back : List Char) :
    digitsValue (front ++ back) = digitsValue front * 10 ^ back.length + digitsValue back := by
  induction back using List.reverseRecOn with
  | nil => simp [digitsValue]
  | append_singleton back c ih =>
    have last (cs : List Char) : digitsValue (cs ++ [c]) = 10 * digitsValue cs + (c.toNat - '0'.toNat) := by
      rw [digitsValue, List.foldl_append, List.foldl_cons, List.foldl_nil, ← digitsValue]
    rw [← List.append_assoc, last, last, ih, List.length_append, List.length_singleton, pow_succ]
    ring

namespace Written

/-- An exponent: its letter and a whole number. -/
structure Power where
  letter : Char
  figures : Figures
  introduced : letter = 'e' ∨ letter = 'E'

/-- Digits, perhaps with a sign, a point among or around them, and an exponent. -/
structure Scientific where
  sign : Sign
  whole : List Char
  fraction : Option (List Char)
  power : Option Power
  filled : whole ++ fraction.getD [] ≠ []
  decimal : ∀ c ∈ whole ++ fraction.getD [], c.isDigit = true

def Power.chars (p : Power) : List Char := p.letter :: p.figures.chars

namespace Scientific

variable (n : Scientific)

def places : List Char := n.fraction.getD []

def pointed : List Char := (n.fraction.map ('.' :: ·)).getD []

def exponentChars : List Char := (n.power.map Power.chars).getD []

def exponent : Int := (n.power.map (·.figures.value)).getD 0

def chars : List Char := n.sign.chars ++ (n.whole ++ (n.pointed ++ n.exponentChars))

/-- The number that is written, exactly. -/
def value : ℚ :=
  n.sign.apply 1 * (digitsValue n.whole + digitsValue n.places / 10 ^ n.places.length) * 10 ^ n.exponent

theorem readExponent?_chars (p : Power) : Decimal.readExponent? p.chars = some p.figures.value := by
  have filled : p.figures.digits.isEmpty = false := by simp [p.figures.filled]
  rw [Power.chars, Decimal.readExponent?, if_pos p.introduced, p.figures.takeSign_chars]
  dsimp only
  rw [p.figures.takeDigits_digits, Figures.value]
  cases p.figures.sign <;> simp [filled, Sign.apply]

theorem readExponent?_exponentChars : Decimal.readExponent? n.exponentChars = some n.exponent := by
  unfold exponentChars exponent
  cases n.power with
  | none => rfl
  | some p => exact readExponent?_chars p

/-- Digits end where an exponent begins, and so does what is in front of a point. -/
theorem head?_exponentChars (c : Char) (head : n.exponentChars.head? = some c) : c = 'e' ∨ c = 'E' := by
  unfold exponentChars at head
  cases power : n.power with
  | none => simp [power] at head
  | some p =>
    rw [power] at head
    exact Option.some.inj head ▸ p.introduced

theorem head?_pointed (c : Char) (head : (n.pointed ++ n.exponentChars).head? = some c) :
    c = '.' ∨ c = 'e' ∨ c = 'E' := by
  unfold pointed at head
  cases fraction : n.fraction with
  | none =>
    rw [fraction] at head
    exact .inr (n.head?_exponentChars c head)
  | some places =>
    rw [fraction] at head
    exact .inl (Option.some.inj head).symm

theorem takeSign_chars :
    takeSign n.chars = (decide (n.sign = .minus), n.whole ++ (n.pointed ++ n.exponentChars)) := by
  refine takeSign_append n.sign fun c head => ?_
  cases split : n.whole with
  | nil =>
    rw [split, List.nil_append] at head
    rcases n.head?_pointed c head with rfl | rfl | rfl <;> decide
  | cons first more =>
    rw [split] at head
    cases head
    exact not_sign_of_isDigit (n.decimal c (by simp [split]))

theorem head?_any_isDigit {cs : List Char} (marks : ∀ c, cs.head? = some c → c = '.' ∨ c = 'e' ∨ c = 'E') :
    cs.head?.any (·.isDigit) = false := by
  cases cs with
  | nil => rfl
  | cons c rest => rcases marks c rfl with rfl | rfl | rfl <;> rfl

theorem takeDigits_whole :
    takeDigits (n.whole ++ (n.pointed ++ n.exponentChars)) = (n.whole, n.pointed ++ n.exponentChars) :=
  takeDigits_append (fun c member => n.decimal c (List.mem_append_left _ member)) (head?_any_isDigit n.head?_pointed)

theorem takeDigits_places : takeDigits (n.places ++ n.exponentChars) = (n.places, n.exponentChars) :=
  takeDigits_append (fun c member => n.decimal c (List.mem_append_right _ member))
    (head?_any_isDigit fun c head => .inr (n.head?_exponentChars c head))

theorem read?_chars : Decimal.read? n.chars =
    some ⟨decide (n.sign = .minus), digitsValue (n.whole ++ n.places), n.exponent - n.places.length⟩ := by
  have filled : (n.whole.isEmpty && n.places.isEmpty) = false := by simpa [places] using n.filled
  have places := n.takeDigits_places
  have power := n.readExponent?_exponentChars
  unfold Decimal.read?
  rw [n.takeSign_chars]
  dsimp only
  rw [n.takeDigits_whole]
  dsimp only
  cases point : n.fraction with
  | some digits =>
    have pointed : n.pointed = '.' :: n.places := by simp [pointed, Scientific.places, point]
    rw [pointed, List.cons_append]
    simp only [places]
    rw [filled, power]
    rfl
  | none =>
    have pointed : n.pointed = [] := by simp [pointed, point]
    have none : n.places = [] := by simp [Scientific.places, point]
    rw [none] at filled
    rw [pointed, List.nil_append, none]
    have first := n.head?_exponentChars
    generalize n.exponentChars = cs at power first
    have other : ∀ rest, cs ≠ '.' :: rest := by
      rintro rest rfl
      rcases first '.' rfl with same | same <;> contradiction
    simp only [filled, power]
    rfl

/-- What is read has the value that is written. -/
theorem exists_read?_chars : ∃ x, Decimal.read? n.chars = some x ∧ x.value = n.value := by
  refine ⟨_, n.read?_chars, ?_⟩
  have sign : ((if decide (n.sign = .minus) = true then -1 else 1 : ℚ)) = n.sign.apply 1 := by
    cases n.sign <;> simp [Sign.apply]
  rw [Decimal.value, value]
  dsimp only
  rw [sign, digitsValue_append, zpow_sub₀ (by norm_num), zpow_natCast]
  push_cast
  field_simp

end Scientific
end Written

namespace Reader
open Text Written

/-- No digit is of another script. -/
def AsciiDigits (cs : List Char) : Prop := ∀ c ∈ cs, isDigit c = true → c.isDigit = true

instance (cs : List Char) : Decidable (AsciiDigits cs) := inferInstanceAs (Decidable (∀ c ∈ cs, _))

theorem Digits.decimal {digits cs : List Char} (all : Digits digits) (ascii : AsciiDigits cs) (among : digits ⊆ cs) :
    ∀ c ∈ digits, c.isDigit = true := fun c member => ascii c (among member) (all c member)

theorem IsInteger.exists_figures {cs : List Char} (integer : IsInteger cs) (ascii : AsciiDigits cs) :
    ∃ n : Figures, n.chars = cs := by
  obtain ⟨sign, all, filled⟩ := integer
  exact ⟨⟨sign, _, filled, all.decimal ascii (List.subset_append_right ..)⟩, rfl⟩

theorem IsPower.exists_power {cs : List Char} (power : IsPower cs) (ascii : AsciiDigits cs) :
    ∃ p : Power, p.chars = cs := by
  obtain ⟨letter, integer⟩ := power
  obtain ⟨figures, rfl⟩ := integer.exists_figures fun c member => ascii c (List.mem_cons_of_mem _ member)
  exact ⟨⟨_, figures, letter⟩, rfl⟩

theorem IsFloat.exists_scientific {cs : List Char} (float : IsFloat cs) (ascii : AsciiDigits cs) :
    ∃ n : Scientific, n.chars = cs := by
  cases float with
  | @point sign whole fraction power front back filled exponent =>
    have digits : Digits (whole ++ fraction) := List.forall_mem_append.mpr ⟨front, back⟩
    have decimal := digits.decimal ascii (by grind)
    rcases exponent with rfl | exponent
    · exact ⟨⟨sign, whole, some fraction, none, filled, decimal⟩, rfl⟩
    · obtain ⟨p, rfl⟩ := exponent.exists_power fun c member => ascii c (by simp [member])
      exact ⟨⟨sign, whole, some fraction, some p, filled, decimal⟩, rfl⟩
  | @power sign whole power front filled exponent =>
    have decimal := front.decimal ascii (by grind)
    obtain ⟨p, rfl⟩ := exponent.exists_power fun c member => ascii c (by simp [member])
    refine ⟨⟨sign, whole, none, some p, ?_, ?_⟩, rfl⟩
    · rwa [Option.getD_none, List.append_nil]
    · rwa [Option.getD_none, List.append_nil]

end Reader
end SqlSchema
