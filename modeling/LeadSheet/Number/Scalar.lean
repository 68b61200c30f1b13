/-!
# Numbers a score is made of

Beats, seconds, velocities and pitches are measured in one type of number. The library is written
over any type with the operations below, so the same definitions run on 64-bit floating-point
numbers and can be reasoned about on exact fractions.

What is asked of the type is little: the four operations, the order, decimals, and `floor?`, the
greatest integer below a number, which only finite numbers have. Truncation, rounding and the
limits of MIDI values are built on these.
-/

namespace LeadSheet

/-- A type of numbers for times, levels and pitches. The order may be partial: a type may hold
values, such as "not a number", that compare with nothing. -/
class Scalar (α : Type) extends Add α, Sub α, Mul α, Div α, LT α, LE α where
  /-- Comparisons can be decided. -/
  decidableLT : DecidableLT α
  /-- Comparisons can be decided. -/
  decidableLE : DecidableLE α
  /-- `ofDecimal m places` is the number nearest to `m / 10 ^ places`. -/
  ofDecimal : Nat → Nat → α
  /-- The number nearest to an integer. -/
  ofInt : Int → α
  /-- The greatest integer that is not above the number; none if the number is not finite. -/
  floor? : α → Option Int

namespace Scalar

variable {α : Type} [Scalar α]

instance (priority := low) instDecidableLT : DecidableLT α := decidableLT

instance (priority := low) instDecidableLE : DecidableLE α := decidableLE

/-- The number nearest to a natural number. -/
def ofNat (n : Nat) : α := ofDecimal n 0

instance (priority := low) instOfNat (n : Nat) : OfNat α n := ⟨ofNat n⟩

instance (priority := low) instInhabited : Inhabited α := ⟨ofNat 0⟩

/-- Whether the number is finite. -/
def isFinite (x : α) : Bool := (floor? x).isSome

/-- The number as an integer, if it is one. -/
def integer? (x : α) : Option Int :=
  (floor? x).bind fun n => if ofInt n < x then none else some n

/-- The integer part, toward zero; a number that is not finite counts as zero. -/
def truncate (x : α) : Int :=
  match floor? x with
  | none => 0
  | some n => if x < (0 : α) ∧ ofInt n < x then n + 1 else n

/-- The nearest integer, halves upward; a number that is not finite stays as it is. -/
def round (x : α) : α :=
  match floor? x with
  | none => x
  | some n => if (1 : α) / (2 : α) ≤ x - ofInt n then ofInt (n + 1) else ofInt n

/-- The greater of two numbers. If they do not compare, neither is a number, and nor is their
sum. -/
def max (x y : α) : α := if y ≤ x then x else if x < y then y else x + y

/-- The lesser of two numbers. If they do not compare, neither is a number, and nor is their
sum. -/
def min (x y : α) : α := if x ≤ y then x else if y < x then y else x + y

/-- `x` brought into the range from `low` to `high`. -/
def clamp (low high x : α) : α := if x < low then low else if high < x then high else x

/-- The same number: equal, or both not a number. -/
def same (x y : α) : Bool := (x ≤ y && y ≤ x) || !(x ≤ x) && !(y ≤ y)

/-- A level between zero and one as a 7-bit value: 127 times the level without its fraction,
brought into the range from 0 to 127. -/
def sevenBit (level : α) : Int := Max.max 0 (Min.min 127 (wide (level * (127 : α))))
where
  /-- The integer part of the product; one that lies beyond every integer counts as 127. -/
  wide (product : α) : Int := if (127 : α) ≤ product then 127 else truncate product

end Scalar

end LeadSheet
