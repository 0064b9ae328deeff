import SqlSchema.Proofs.Written.Lexeme
import SqlSchema.Reader.Literal

/-! What numbers look like where they are read: digits of any script with a sign, a point and an exponent. -/
namespace SqlSchema.Reader
open Text

/-- Digits of any script. -/
def Digits (cs : List Char) : Prop := ∀ c ∈ cs, isDigit c = true

inductive IsInteger : List Char → Prop
  | mk (sign : Written.Sign) {digits : List Char} (all : Digits digits) (filled : digits ≠ []) :
    IsInteger (sign.chars ++ digits)

inductive IsPower : List Char → Prop
  | mk {e : Char} {cs : List Char} (letter : e = 'e' ∨ e = 'E') (integer : IsInteger cs) : IsPower (e :: cs)

/-- Digits with a point or an exponent. -/
inductive IsFloat : List Char → Prop
  | point (sign : Written.Sign) {whole fraction power : List Char} (front : Digits whole) (back : Digits fraction)
    (filled : whole ++ fraction ≠ []) (exponent : power = [] ∨ IsPower power) :
    IsFloat (sign.chars ++ (whole ++ '.' :: (fraction ++ power)))
  | power (sign : Written.Sign) {whole power : List Char} (front : Digits whole) (filled : whole ≠ [])
    (exponent : IsPower power) :
    IsFloat (sign.chars ++ (whole ++ power))

/-- The text begins with so many characters that have the property. -/
def Spans (P : List Char → Prop) (cs : List Char) (size : Nat) : Prop :=
  ∃ taken rest, cs = taken ++ rest ∧ P taken ∧ taken.length = size

theorem Spans.bounded {P : List Char → Prop} {cs : List Char} {size : Nat} (spans : Spans P cs size) (filled : ¬ P []) :
    0 < size ∧ size ≤ cs.length := by
  obtain ⟨taken, rest, rfl, holds, rfl⟩ := spans
  have nonempty : taken ≠ [] := by
    rintro rfl
    exact filled holds
  exact ⟨List.length_pos_iff.mpr nonempty, by simp⟩

theorem not_isInteger_nil : ¬ IsInteger [] := by
  intro empty
  generalize none : [] = taken at empty
  cases empty with
  | mk sign all filled => exact filled (List.append_eq_nil_iff.mp none.symm).2

theorem not_isFloat_nil : ¬ IsFloat [] := by
  intro empty
  generalize none : [] = taken at empty
  cases empty with
  | point sign => exact absurd none.symm (by simp)
  | power sign front filled => exact absurd none.symm (by simp [filled])

theorem spans_sign (cs : List Char) :
    ∃ sign : Written.Sign, ∃ rest, cs = sign.chars ++ rest ∧ signSize cs = sign.chars.length := by
  unfold signSize
  split
  next rest => exact ⟨.plus, rest, rfl, rfl⟩
  next rest => exact ⟨.minus, rest, rfl, rfl⟩
  next => exact ⟨.none, cs, rfl, rfl⟩

theorem spans_digits (cs : List Char) :
    ∃ digits rest, cs = digits ++ rest ∧ Digits digits ∧ digitCount cs = digits.length :=
  ⟨_, _, List.takeWhile_append_dropWhile.symm, fun _ member => List.mem_takeWhile_imp member, rfl⟩

theorem spans_integer {cs : List Char} {size : Nat} (found : integerSize? cs = some size) :
    Spans IsInteger cs size := by
  obtain ⟨sign, unsigned, rfl, signed⟩ := spans_sign cs
  obtain ⟨digits, rest, rfl, all, count⟩ := spans_digits unsigned
  unfold integerSize? at found
  dsimp only at found
  rw [signed, List.drop_left, count] at found
  split at found
  next holds =>
    cases found
    simp only [Bool.and_eq_true, decide_eq_true_eq] at holds
    refine ⟨sign.chars ++ digits, rest, by rw [List.append_assoc], ⟨sign, all, ?_⟩, List.length_append⟩
    exact List.ne_nil_of_length_pos holds.1.1
  next => contradiction

theorem spans_power {cs : List Char} {size : Nat} (found : exponentSize? cs = some size) : Spans IsPower cs size := by
  unfold exponentSize? at found
  split at found
  next e unsigned =>
    split at found
    next letter =>
      obtain ⟨sign, unsigned, rfl, signed⟩ := spans_sign unsigned
      obtain ⟨digits, rest, rfl, all, count⟩ := spans_digits unsigned
      dsimp only at found
      rw [signed, List.drop_left, count] at found
      split at found
      next filled =>
        cases found
        refine ⟨e :: (sign.chars ++ digits), rest, by simp, ⟨letter, ⟨sign, all, ?_⟩⟩, ?_⟩
        · exact List.ne_nil_of_length_pos filled
        · rw [List.length_cons, List.length_append]
          omega
      next => contradiction
    next => contradiction
  next => contradiction

/-- An exponent may be missing. -/
theorem spans_power_getD (cs : List Char) :
    Spans (fun power => power = [] ∨ IsPower power) cs ((exponentSize? cs).getD 0) := by
  cases found : exponentSize? cs with
  | none => exact ⟨[], cs, rfl, .inl rfl, rfl⟩
  | some size =>
    obtain ⟨taken, rest, split, power, length⟩ := spans_power found
    exact ⟨taken, rest, split, .inr power, length⟩

theorem spans_float {cs : List Char} {size : Nat} (found : floatSize? cs = some size) : Spans IsFloat cs size := by
  obtain ⟨sign, unsigned, rfl, signed⟩ := spans_sign cs
  obtain ⟨whole, behind, rfl, front, count⟩ := spans_digits unsigned
  unfold floatSize? at found
  dsimp only at found
  rw [signed, List.drop_left, count, List.drop_left] at found
  split at found
  next rest =>
    obtain ⟨fraction, after, rfl, back, places⟩ := spans_digits rest
    rw [places] at found
    split at found
    · contradiction
    next filled =>
      have mantissa : (sign.chars ++ (whole ++ '.' :: (fraction ++ after))).drop
          (sign.chars.length + whole.length + 1 + fraction.length) = after := by
        have split : sign.chars ++ (whole ++ '.' :: (fraction ++ after)) =
            (sign.chars ++ (whole ++ '.' :: fraction)) ++ after := by simp
        rw [split]
        exact List.drop_left' (by simp; omega)
      rw [mantissa] at found
      obtain ⟨power, rest, rfl, exponent, length⟩ := spans_power_getD after
      split at found
      · cases found
        refine ⟨_, rest, ?_, .point sign front back ?_ exponent, ?_⟩
        · simp
        · intro none
          obtain ⟨rfl, rfl⟩ := List.append_eq_nil_iff.mp none
          exact filled rfl
        · simp only [List.length_append, List.length_cons, length]
          omega
      · contradiction
  next rest _ =>
    split at found
    next size exponent =>
      obtain ⟨power, after, rfl, holds, length⟩ := spans_power exponent
      split at found
      next filled =>
        cases found
        simp only [Bool.and_eq_true, decide_eq_true_eq] at filled
        refine ⟨_, after, ?_, .power sign front (List.ne_nil_of_length_pos filled.1) holds, ?_⟩
        · simp
        · simp only [List.length_append, length]
          omega
      next => contradiction
    next => contradiction

end SqlSchema.Reader
