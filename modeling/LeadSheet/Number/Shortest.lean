import LeadSheet.Number.Binary64

/-!
# The shortest decimal of a double

Many decimals read back as the same double: all those in the interval of numbers that round to it.
`Shortest.decimal` picks the one to write. It has the fewest digits of any decimal in the interval,
and of those with as few digits it is the nearest to the double's exact value.

Everything is done with natural numbers. On the grid of multiples of a power of ten only the two
neighbours of the exact value matter: if any point of the grid lies in the interval, one of these
two does. So the search tries 1, 2, ..., 17 digits and takes the first grid with a neighbour in the
interval; 17 digits always suffice.
-/

namespace LeadSheet

/-- The number `digits * 10 ^ exponent`. -/
structure Decimal where
  digits : Nat
  exponent : Int
  deriving DecidableEq, Repr

namespace Decimal

/-- The same number written without zeros at the end of its digits. -/
def stripZeros (digits : Nat) (exponent : Int) : Decimal :=
  if h : digits ≠ 0 ∧ digits % 10 = 0 then stripZeros (digits / 10) (exponent + 1)
  else ⟨digits, exponent⟩
termination_by digits
decreasing_by omega

end Decimal

namespace Shortest

/-- The numbers that round to a positive double, as fractions over one denominator. -/
structure Interval where
  low : Nat
  middle : Nat
  high : Nat
  denominator : Nat
  /-- Whether the two ends round to the double as well. -/
  closed : Bool
  deriving DecidableEq, Repr

/-- The interval of `mantissa * 2 ^ exponent`. It reaches half way to either neighbour; below a
power of two the neighbour is only half as far. Ties go to the even mantissa. -/
def interval (mantissa : Nat) (exponent : Int) : Interval :=
  let below := if mantissa = Nat.pow 2 52 ∧ -1074 < exponent then 1 else 2
  let factor := Nat.pow 2 (exponent - 2).toNat
  { low := (4 * mantissa - below) * factor
    middle := 4 * mantissa * factor
    high := (4 * mantissa + 2) * factor
    denominator := Nat.pow 2 (2 - exponent).toNat
    closed := mantissa % 2 = 0 }

/-- The exponent of the power of ten that the middle's first digit stands for. The shift makes the
middle at least one. -/
def leadingExponent (i : Interval) : Int :=
  let shift := i.denominator.log2 + 1 - i.middle.log2
  let digits := Nat.toDigits 10 (i.middle * Nat.pow 10 shift / i.denominator)
  (digits.length : Int) - 1 - (shift : Int)

/-- Whether `count * 10 ^ exponent` lies in the interval. -/
def contains (i : Interval) (count : Nat) (exponent : Int) : Bool :=
  let scale := Nat.pow 10 (-exponent).toNat
  let point := count * (i.denominator * Nat.pow 10 exponent.toNat)
  if i.closed then i.low * scale ≤ point && point ≤ i.high * scale
  else i.low * scale < point && point < i.high * scale

/-- The neighbour of the middle on the grid of multiples of `10 ^ exponent` that lies in the
interval: the nearer one if both do, and the even one of two that are equally near. -/
def onGrid? (i : Interval) (exponent : Int) : Option Nat :=
  let step := i.denominator * Nat.pow 10 exponent.toNat
  let middle := i.middle * Nat.pow 10 (-exponent).toNat
  let down := middle / step
  let up := down + 1
  let left := middle - down * step
  let right := up * step - middle
  match contains i down exponent, contains i up exponent with
  | true, true => if left < right ∨ left = right ∧ down % 2 = 0 then some down else some up
  | true, false => some down
  | false, true => some up
  | false, false => none

/-- The decimal to write for the positive double `mantissa * 2 ^ exponent`. -/
def decimal (mantissa : Nat) (exponent : Int) : Decimal :=
  let i := interval mantissa exponent
  let leading := leadingExponent i
  let found := (List.range 17).findSome? fun (extra : Nat) =>
    (onGrid? i (leading - extra)).map fun count => Decimal.stripZeros count (leading - extra)
  found.getD ⟨0, 0⟩

end Shortest

end LeadSheet
