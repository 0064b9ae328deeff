import SqlSchema.Proofs.Reader.Opening
import SqlSchema.Proofs.Written.Lexeme

/-! Numerals as literals. Of all kinds of literals a numeral is an integer, and it is decoded to its value. -/
namespace SqlSchema.Written
open Text Reader Attempt

theorem takeSign_append (sign : Sign) {cs : List Char} (unsigned : ∀ c, cs.head? = some c → c ≠ '+' ∧ c ≠ '-') :
    takeSign (sign.chars ++ cs) = (decide (sign = .minus), cs) := by
  cases sign with
  | none =>
    rw [Sign.chars, List.nil_append]
    unfold takeSign
    split
    · exact absurd rfl (unsigned '-' rfl).2
    · exact absurd rfl (unsigned '+' rfl).1
    · rfl
  | plus => rfl
  | minus => rfl

theorem takeDigits_append {digits rest : List Char} (decimal : ∀ c ∈ digits, c.isDigit = true)
    (ended : rest.head?.any (·.isDigit) = false) : takeDigits (digits ++ rest) = (digits, rest) := by
  rw [takeDigits, List.takeWhile_append_of_pos decimal, List.dropWhile_append_of_pos decimal]
  cases rest with
  | nil => rw [List.takeWhile_nil, List.dropWhile_nil, List.append_nil]
  | cons c more =>
    have other : ¬ c.isDigit = true := by simpa using ended
    rw [List.takeWhile_cons_of_neg other, List.dropWhile_cons_of_neg other, List.append_nil]

theorem not_sign_of_isDigit {c : Char} (decimal : c.isDigit = true) : c ≠ '+' ∧ c ≠ '-' := by
  constructor
  all_goals
    rintro rfl
    exact absurd decimal (by decide)

namespace Figures

variable (n : Figures)

theorem isDigit_of_mem (c : Char) (member : c ∈ n.digits) : Text.isDigit c = true := by
  have decimal := n.decimal c member
  have ascii : c.toNat < 128 := by
    simp only [Char.isDigit, Bool.and_eq_true, decide_eq_true_eq] at decimal
    exact Nat.lt_of_le_of_lt decimal.2 (by decide)
  rw [isDigit_of_ascii c ascii, decimal]

theorem head_not_sign (rest : List Char) :
    ∃ first more, n.digits ++ rest = first :: more ∧ first ≠ '+' ∧ first ≠ '-' := by
  obtain ⟨first, more, split⟩ := List.exists_cons_of_ne_nil n.filled
  have decimal := n.decimal first (split ▸ List.mem_cons_self ..)
  exact ⟨first, more ++ rest, by rw [split, List.cons_append], not_sign_of_isDigit decimal⟩

theorem signSize_append (rest : List Char) : signSize (n.chars ++ rest) = n.sign.chars.length := by
  obtain ⟨first, more, split, plus, minus⟩ := n.head_not_sign rest
  rw [chars, List.append_assoc, split]
  cases n.sign with
  | none =>
    change signSize (first :: more) = 0
    unfold signSize
    split
    · next same => exact absurd (List.cons.inj same).1 plus
    · next same => exact absurd (List.cons.inj same).1 minus
    · rfl
  | plus => rfl
  | minus => rfl

variable {rest : List Char}

theorem digitCount_append (parted : Parted rest) : digitCount (n.digits ++ rest) = n.digits.length := by
  obtain ⟨c, separator, head⟩ := parted
  obtain ⟨tail, rfl⟩ := List.head?_eq_some_iff.mp head
  have none : ∀ c ∈ separators, Text.isDigit c = false := by decide
  have ended : (c :: tail).takeWhile Text.isDigit = [] := List.takeWhile_cons_of_neg (by simp [none c separator])
  rw [digitCount, List.takeWhile_append_of_pos n.isDigit_of_mem, ended, List.append_nil]

theorem seen : Cursor.Seen n.chars := by
  obtain ⟨first, more, split⟩ := List.exists_cons_of_ne_nil n.filled
  have decimal := n.decimal first (split ▸ List.mem_cons_self ..)
  have plain := Rule.touches_of_isPlainWord first (by simp [Rule.isPlainWord, Char.isAlphanum, decimal])
  unfold chars
  cases n.sign with
  | none => simp [Sign.chars, split, Cursor.Seen, plain.2]
  | plus => simp [Sign.chars, Cursor.Seen, Cursor.isGap]
  | minus => simp [Sign.chars, Cursor.Seen, Cursor.isGap]

theorem mem_chars (c : Char) (member : c ∈ n.chars) : c.isDigit = true ∨ c ∈ ['+', '-'] := by
  rcases List.mem_append.mp member with signed | digit
  · cases sign : n.sign <;> simp_all [Sign.chars]
  · exact .inl (n.decimal c digit)

/-- What follows the first character of a numeral is a digit or a separator. -/
theorem second (parted : Parted rest) (c d : Char) (more : List Char) (split : n.chars ++ rest = c :: d :: more) :
    d.isDigit = true ∨ d ∈ separators := by
  obtain ⟨separator, among, head⟩ := parted
  obtain ⟨tail, rfl⟩ := List.head?_eq_some_iff.mp head
  have digits : ∀ cs : List Char, (∀ c ∈ cs, c.isDigit = true) → ∀ d more, cs ++ separator :: tail = d :: more →
      d.isDigit = true ∨ d ∈ separators := by
    intro cs decimal d more split
    cases cs with
    | nil => exact .inr ((List.cons.inj split).1 ▸ among)
    | cons e others => exact .inl ((List.cons.inj split).1 ▸ decimal e (List.mem_cons_self ..))
  unfold chars at split
  obtain ⟨first, others, unsigned⟩ := List.exists_cons_of_ne_nil n.filled
  cases sign : n.sign with
  | none =>
    rw [sign, Sign.chars, List.nil_append, unsigned, List.cons_append] at split
    exact digits others (fun e member => n.decimal e (unsigned ▸ List.mem_cons_of_mem _ member)) d more
      (List.cons.inj split).2
  | plus =>
    rw [sign, Sign.chars, List.append_assoc] at split
    exact digits n.digits n.decimal d more (List.cons.inj split).2
  | minus =>
    rw [sign, Sign.chars, List.append_assoc] at split
    exact digits n.digits n.decimal d more (List.cons.inj split).2

theorem integerSize_append (parted : Parted rest) : integerSize? (n.chars ++ rest) = some n.chars.length := by
  have digits : 0 < n.digits.length := List.length_pos_iff.mpr n.filled
  have unsigned : (n.chars ++ rest).drop n.sign.chars.length = n.digits ++ rest := by
    rw [chars, List.append_assoc, List.drop_left]
  have after : (n.chars ++ rest).drop (n.sign.chars.length + n.digits.length) = rest := by
    rw [← List.length_append, ← chars, List.drop_left]
  have ended : endsWord rest = true := by
    rw [endsWord, parted.head _ (by decide), Bool.not_false]
  have point : rest.head? ≠ some '.' := by
    obtain ⟨c, separator, head⟩ := parted
    rw [head]
    intro same
    cases Option.some.inj same
    revert separator
    decide
  unfold integerSize?
  dsimp only
  rw [signSize_append, unsigned, digitCount_append n parted, after]
  simp [digits, ended, point, chars]

theorem floatSize_append (parted : Parted rest) : floatSize? (n.chars ++ rest) = none := by
  have unsigned : (n.chars ++ rest).drop n.sign.chars.length = n.digits ++ rest := by
    rw [chars, List.append_assoc, List.drop_left]
  unfold floatSize?
  dsimp only
  rw [signSize_append, unsigned, digitCount_append n parted, List.drop_left]
  obtain ⟨c, separator, head⟩ := parted
  obtain ⟨tail, rfl⟩ := List.head?_eq_some_iff.mp head
  have powerless : exponentSize? (c :: tail) = none := by
    have none : ∀ c ∈ separators, ¬ (c = 'e' ∨ c = 'E') := by decide
    rw [exponentSize?, if_neg (none c separator)]
  split
  next same =>
    cases (List.cons.inj same).1
    exact absurd separator (by decide)
  next => rw [powerless]

theorem letterString_append (parted : Parted rest) (letter : Char) (isPart : Char → Bool) :
    letterString? letter isPart (n.chars ++ rest) = none := by
  unfold letterString?
  split
  next c more split =>
    exact absurd (n.second parted _ _ _ split) (by decide)
  next => rfl

theorem hexNumberSize_append (parted : Parted rest) : hexNumberSize? (n.chars ++ rest) = none := by
  unfold hexNumberSize?
  split
  next x more split =>
    have second := n.second parted _ _ _ split
    have foreign : ¬ (x = 'x' ∨ x = 'X') := by
      rintro (rfl | rfl) <;> exact absurd second (by decide)
    simp [foreign]
  next => rfl

/-- The number that the figures stand for. -/
def value (n : Figures) : Int := n.sign.apply (digitsValue n.digits)

theorem takeSign_chars : takeSign n.chars = (decide (n.sign = .minus), n.digits) := by
  refine takeSign_append n.sign fun c head => not_sign_of_isDigit (n.decimal c ?_)
  exact List.mem_of_mem_head? head

theorem takeDigits_digits : takeDigits n.digits = (n.digits, []) := by
  have whole : takeDigits (n.digits ++ []) = (n.digits, []) := takeDigits_append n.decimal rfl
  rwa [List.append_nil] at whole

theorem integerOf?_chars : integerOf? n.chars = some n.value := by
  have filled : n.digits.isEmpty = false := by simp [n.filled]
  unfold integerOf?
  rw [n.takeSign_chars]
  dsimp only
  rw [n.takeDigits_digits]
  unfold value
  cases n.sign <;> simp [filled, Sign.apply]

end Figures

namespace Numeral

variable (n : Numeral)

theorem decodes : (decodeInteger n.text).Gives n.value := by
  have found : integerOf? n.chars = some n.value := n.figures.integerOf?_chars
  have width : ¬ Interruption.digitLimit < numeralWidth n.chars := by
    rw [numeralWidth, show takeSign n.chars = _ from n.figures.takeSign_chars]
    exact Nat.not_lt.mpr n.short
  unfold decodeInteger text
  rw [String.toList_ofList]
  dsimp only
  rw [found]
  dsimp only
  rw [if_neg width, if_pos (show fitsWord n.value = true from n.fits)]
  exact (gives_pure _ _).mpr rfl

theorem gives_literal : (Value.ofLiteral n.literal).Gives (some n.decoded) := by
  simp only [Value.ofLiteral, literal, gives_bind, gives_pure]
  exact ⟨n.value, n.decodes, rfl⟩

theorem gives_literal? (o : Option Numeral) :
    (Value.ofLiteral? (o.map literal)).Gives (o.map decoded) := by
  cases o with
  | none => exact (gives_pure _ _).mpr rfl
  | some n => exact n.gives_literal

end Numeral
end SqlSchema.Written

namespace SqlSchema.Reader.Rule
open Text Written

variable {rest : List Char}

theorem takes_integer (n : Figures) (parted : Parted rest) : integer.Takes (n.chars ++ rest) n.literal rest := by
  unfold integer sized
  refine takes_recognised n.seen ?_ parted.not_touching
  rw [n.integerSize_append parted, Option.map_some, List.take_left]
  rfl

theorem Figures.visible (n : Figures) : (n.chars ++ rest).head?.any Cursor.isGap = false := by
  obtain ⟨first, more, split, seen⟩ := n.seen.split
  simp [split, seen]

theorem takes_value (d : Dialect) (n : Figures) (parted : Parted rest) :
    (value d).Takes (n.chars ++ rest) n.literal rest := by
  apply Takes.choice
  unfold literal
  have visible : (n.chars ++ rest).head?.any Cursor.isGap = false := Figures.visible n
  refine (refuses_recognised visible ?_).choice ((refuses_recognised visible ?_).choice
    ((refuses_recognised visible ?_).choice ((refuses_recognised visible ?_).choice (Takes.choice _ ?_))))
  · rw [n.letterString_append parted, Option.map_none]
  · rw [n.letterString_append parted, Option.map_none]
  · rw [n.hexNumberSize_append parted, Option.map_none]
  · rw [n.floatSize_append parted, Option.map_none]
  · exact takes_integer n parted

end SqlSchema.Reader.Rule
