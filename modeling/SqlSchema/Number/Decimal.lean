import SqlSchema.Number.Binary64

/-! Decimal numerals: their value as a coefficient and a power of ten, read from text and rounded to binary. -/
namespace SqlSchema

def digitsValue (cs : List Char) : Nat := cs.foldl (fun value c => 10 * value + (c.toNat - '0'.toNat)) 0

def takeSign : List Char → Bool × List Char
  | '-' :: rest => (true, rest)
  | '+' :: rest => (false, rest)
  | cs => (false, cs)

def takeDigits (cs : List Char) : List Char × List Char := (cs.takeWhile (·.isDigit), cs.dropWhile (·.isDigit))

/-- A signed coefficient times a power of ten. -/
structure Decimal where
  negative : Bool
  coefficient : Nat
  exponent : Int
deriving DecidableEq, Repr

namespace Decimal

/-- Reads `e` or `E`, a sign if there is one, and one or more digits up to the end of the text. -/
def readExponent? : List Char → Option Int
  | [] => some 0
  | c :: rest =>
    if c = 'e' ∨ c = 'E' then
      let (negative, unsigned) := takeSign rest
      let (digits, after) := takeDigits unsigned
      if digits.isEmpty || !after.isEmpty then none
      else some (if negative then -(digitsValue digits : Int) else digitsValue digits)
    else none

/-- Reads a whole text as a numeral: a sign, digits with or without a point among or around them, and an
exponent, where sign, point and exponent may be missing. -/
def read? (cs : List Char) : Option Decimal :=
  let (negative, unsigned) := takeSign cs
  let (whole, afterWhole) := takeDigits unsigned
  let (fraction, afterFraction) := match afterWhole with
    | '.' :: rest => takeDigits rest
    | rest => ([], rest)
  if whole.isEmpty && fraction.isEmpty then none
  else (readExponent? afterFraction).map fun exponent =>
    ⟨negative, digitsValue (whole ++ fraction), exponent - fraction.length⟩

def width (n : Nat) : Nat := (Nat.toDigits 10 n).length

/-- The magnitude of the nearest binary number, infinity and more included. Numerals far outside the range are
settled by their width alone, so that no huge power of ten is ever formed. -/
def magnitude (x : Decimal) : Nat :=
  let order := (width x.coefficient : Int) + x.exponent
  if x.coefficient = 0 then 0
  else if 400 < order then Binary64.infinity
  else if order < -400 then 0
  else if 0 ≤ x.exponent then Binary64.nearest (x.coefficient * tenPow x.exponent.toNat) 1
  else Binary64.nearest x.coefficient (tenPow (-x.exponent).toNat)

def toBinary64? (x : Decimal) : Option Binary64 :=
  if x.magnitude < Binary64.infinity then some ⟨x.negative, x.magnitude⟩ else none

theorem toBinary64?_finite (x : Decimal) (y : Binary64) (rounded : x.toBinary64? = some y) : y.IsFinite := by
  simp only [toBinary64?] at rounded
  split at rounded
  next small => cases Option.some.inj rounded; exact small
  next => contradiction

end Decimal
end SqlSchema
