/-! Hexadecimal numerals of a fixed least width. -/
namespace SqlSchema.Text

/-- The digits of `n` in base 16, small letters, filled with zeros up to `width`. -/
def hex (width n : Nat) : List Char :=
  let digits := Nat.toDigits 16 n
  List.replicate (width - digits.length) '0' ++ digits

def hexCapital (width n : Nat) : List Char := (hex width n).map Char.toUpper

def hexDigit? (c : Char) : Option Nat :=
  if c.isDigit then some (c.toNat - '0'.toNat)
  else if 'a' ≤ c ∧ c ≤ 'f' then some (c.toNat - 'a'.toNat + 10)
  else if 'A' ≤ c ∧ c ≤ 'F' then some (c.toNat - 'A'.toNat + 10)
  else none

theorem hex_length (width n : Nat) : width ≤ (hex width n).length := by
  simp only [hex, List.length_append, List.length_replicate]
  omega

end SqlSchema.Text
