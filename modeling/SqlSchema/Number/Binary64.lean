import SqlSchema.Number.Power

/-! Binary floating point numbers of 64 bits, and the nearest one to a fraction.

The low 63 bits of such a number, read as a natural number, grow with the absolute value. So rounding is done
on them, and the step from one binary order of magnitude to the next needs no case of its own. -/
namespace SqlSchema

/-- A number of 64 bits: its sign and its other 63 bits. -/
structure Binary64 where
  negative : Bool
  magnitude : Nat
deriving DecidableEq, Repr

namespace Binary64

/-- The magnitude of infinity: all finite numbers lie below. -/
def infinity : Nat := 2047 * twoPow 52

def IsFinite (x : Binary64) : Prop := x.magnitude < infinity

instance (x : Binary64) : Decidable x.IsFinite := inferInstanceAs (Decidable (_ < _))

/-- All 64 bits, the sign on top. -/
def bits (x : Binary64) : Nat := (if x.negative then twoPow 63 else 0) + x.magnitude

/-- The absolute value is the significand times two to the power of the exponent. -/
def significand (x : Binary64) : Nat :=
  if x.magnitude / twoPow 52 = 0 then x.magnitude else twoPow 52 + x.magnitude % twoPow 52

def exponent (x : Binary64) : Int := (max 1 (x.magnitude / twoPow 52) : Nat) - 1075

/-- The natural number next to `n / d`; of two equally near ones the even one. -/
def roundHalfEven (n d : Nat) : Nat :=
  let quotient := n / d
  let rest := n % d
  if 2 * rest < d then quotient
  else if d < 2 * rest then quotient + 1
  else quotient + quotient % 2

/-- The fraction `n / d` divided by two to the power of `e`. -/
def scale (n d : Nat) (e : Int) : Nat × Nat := (n * twoPow (-e).toNat, d * twoPow e.toNat)

/-- The exponent of the last bit that a number near `n / d` has. -/
def lastBit (n d : Nat) : Int :=
  let e := max (-1074) ((n.log2 : Int) - d.log2 - 52)
  let (a, b) := scale n d e
  if -1074 < e ∧ a < twoPow 52 * b then e - 1 else e

/-- The magnitude nearest to `n / d`, ties to even; `infinity` or more when the fraction is too great. -/
def nearest (n d : Nat) : Nat :=
  if n = 0 then 0
  else
    let e := lastBit n d
    let (a, b) := scale n d e
    (e + 1074).toNat * twoPow 52 + roundHalfEven a b

theorem roundHalfEven_near (n d : Nat) (positive : 0 < d) :
    2 * n ≤ (2 * roundHalfEven n d + 1) * d ∧ 2 * roundHalfEven n d * d ≤ 2 * n + d := by
  have whole := Nat.div_add_mod n d
  have small := Nat.mod_lt n positive
  simp only [roundHalfEven]
  generalize n / d = q at *
  generalize n % d = r at *
  have distribute : (2 * q + 1) * d = 2 * (d * q) + d := by grind
  have halves : q % 2 = 0 ∨ q % 2 = 1 := by omega
  split
  · constructor <;> grind
  · split
    · constructor <;> grind
    · rcases halves with even | odd
      · rw [even]; constructor <;> grind
      · rw [odd]; constructor <;> grind

end Binary64
end SqlSchema
