import SqlSchema.Number.Decimal

/-! The shortest decimal text of a binary number: the fewest digits that read back as the same number, and of
those the nearest to it. -/
namespace SqlSchema.Binary64

/-- Compares `c` times ten to the power `g` with `x` times two to the power `q`. -/
def compareScaled (c : Nat) (g : Int) (x : Nat) (q : Int) : Ordering :=
  compare (c * tenPow g.toNat * twoPow (-q).toNat) (x * twoPow q.toNat * tenPow (-g).toNat)

/-- Four times the significand, with the ends of the interval that rounds to the number. The gap below a power
of two is half as wide as the one above. -/
structure Interval where
  low : Nat
  value : Nat
  high : Nat
  unit : Int
  closed : Bool

def interval (x : Binary64) : Interval :=
  let m := x.significand
  { low := if m = twoPow 52 ∧ -1074 < x.exponent then 4 * m - 1 else 4 * m - 2
    value := 4 * m
    high := 4 * m + 2
    unit := x.exponent - 2
    closed := m % 2 = 0 }

/-- Whether `c` times ten to the power `g` reads back as the number of the interval. -/
def Interval.holds (i : Interval) (c : Nat) (g : Int) : Bool :=
  let below := compareScaled c g i.low i.unit
  let above := compareScaled c g i.high i.unit
  if i.closed then below != .lt && above != .gt else below == .gt && above == .lt

/-- The least `p` for which the number lies below ten to the power `p`. -/
def decimalOrder (i : Interval) : Int :=
  (Decimal.width (i.value * twoPow i.unit.toNat * tenPow 400 / twoPow (-i.unit).toNat) : Int) - 400

/-- The greatest multiple of ten to the power `g` that does not exceed the number. -/
def Interval.floor (i : Interval) (g : Int) : Nat :=
  i.value * twoPow i.unit.toNat * tenPow (-g).toNat / (twoPow (-i.unit).toNat * tenPow g.toNat)

/-- The better of the two neighbours of the number on the grid of ten to the power `g`, if one reads back. -/
def Interval.pick (i : Interval) (g : Int) : Option (Nat × Int) :=
  let c := i.floor g
  match i.holds c g, i.holds (c + 1) g with
  | true, false => some (c, g)
  | false, true => some (c + 1, g)
  | false, false => none
  | true, true =>
    match compareScaled (2 * c + 1) g (2 * i.value) i.unit with
    | .gt => some (c, g)
    | .lt => some (c + 1, g)
    | .eq => some (c + c % 2, g)

/-- The shortest coefficient and exponent; seventeen digits are always enough. -/
def shortest (x : Binary64) : Nat × Int :=
  let i := x.interval
  let order := decimalOrder i
  ((List.range 17).findSome? fun (n : Nat) => i.pick (order - (n + 1))).getD (i.floor (order - 17), order - 17)

/-- How digits become text: the orders of magnitude written with a point in place, and the least number of
digits of an exponent. -/
structure DigitLayout where
  lowest : Int
  highest : Int
  exponentWidth : Nat

/-- From a ten-thousandth up to below ten to the power 16 the point stands in place. -/
def layout : DigitLayout := ⟨-4, 15, 2⟩

def layDigits (form : DigitLayout) (digits : List Char) (order : Int) : List Char :=
  if form.lowest ≤ order ∧ order ≤ form.highest then
    if order < 0 then '0' :: '.' :: List.replicate (-order - 1).toNat '0' ++ digits
    else
      let whole := order.toNat + 1
      let fraction := digits.drop whole
      (digits.take whole ++ List.replicate (whole - digits.length) '0') ++
        '.' :: (if fraction.isEmpty then ['0'] else fraction)
  else
    let power := Nat.toDigits 10 order.natAbs
    digits.take 1 ++ (if digits.length ≤ 1 then [] else '.' :: digits.drop 1) ++
      ['e', if order < 0 then '-' else '+'] ++ List.replicate (form.exponentWidth - power.length) '0' ++ power

/-- The text of a number; what is no number has no sign. -/
def text (x : Binary64) : String :=
  let absolute :=
    if x.magnitude = 0 then ['0', '.', '0']
    else if x.magnitude = infinity then ['i', 'n', 'f']
    else
      let (c, g) := x.shortest
      let digits := Nat.toDigits 10 c
      let order := g + digits.length - 1
      layDigits layout ((digits.reverse.dropWhile (· == '0')).reverse) order
  if infinity < x.magnitude then "nan" else String.ofList (if x.negative then '-' :: absolute else absolute)

end SqlSchema.Binary64
