import LeadSheet.Number.Scalar

/-!
# 64-bit floating-point numbers, taken apart

A finite double is an integer times a power of two. `Binary64.decode` reads sign, integer and
power off the bits; everything else that needs the exact value of a double (its floor, its
shortest decimal text) starts from there. With the floor at hand the doubles are a type of scalars.
-/

namespace LeadSheet

/-- The value of a double. -/
inductive Binary64 where
  /-- Not a number. -/
  | nan
  /-- Beyond every finite number, on the negative side or the positive one. -/
  | infinite (negative : Bool)
  /-- `mantissa * 2 ^ exponent`, negated if `negative`. -/
  | finite (negative : Bool) (mantissa : Nat) (exponent : Int)
  deriving DecidableEq, Repr

namespace Binary64

/-- Reads a double's bits: one for the sign, 11 for the exponent, 52 for the fraction. The lowest
exponent has no leading one before its fraction, the highest stands for what is not finite. -/
def decode (x : Float) : Binary64 :=
  let bits : Nat := x.toBits.toNat
  let negative := decide (Nat.pow 2 63 ≤ bits)
  let exponent : Nat := bits / Nat.pow 2 52 % Nat.pow 2 11
  let fraction : Nat := bits % Nat.pow 2 52
  if exponent = Nat.pow 2 11 - 1 then if fraction = 0 then infinite negative else nan
  else if exponent = 0 then finite negative fraction (-1074)
  else finite negative (Nat.pow 2 52 + fraction) ((exponent : Int) - 1075)

/-- The greatest integer that is not above a finite value. -/
def floor? : Binary64 → Option Int
  | nan | infinite _ => none
  | finite negative mantissa exponent =>
    let signed : Int := if negative then -mantissa else mantissa
    some
      (if 0 ≤ exponent then signed * Nat.pow 2 exponent.toNat
        else signed / Nat.pow 2 (-exponent).toNat)

end Binary64

instance : Scalar Float where
  decidableLT := inferInstance
  decidableLE := inferInstance
  ofDecimal m places := Float.ofScientific m true places
  ofInt := Float.ofInt
  floor? x := (Binary64.decode x).floor?

end LeadSheet
