import LeadSheet.Number.Shortest

/-!
# How a number is written

Numbers in messages, prompts and stored documents are written in one way: the shortest decimal
that reads back, without an exponent from `1e-6` up to but not including `1e21`, and without a
point where the number is an integer. Zero has no sign.
-/

namespace LeadSheet.Notation

/-- So many zeros. -/
def zeros (count : Nat) : String := String.ofList (List.replicate count '0')

/-- A positive decimal. `point` is where its point falls, counted from its first digit. -/
def ofDecimal (d : Decimal) : String :=
  let digits := Nat.toDigits 10 d.digits
  let length : Int := digits.length
  let point := length + d.exponent
  if length ≤ point ∧ point ≤ 21 then
    String.ofList digits ++ zeros (point - length).toNat
  else if 0 < point ∧ point ≤ 21 then
    String.ofList (digits.take point.toNat) ++ "." ++ String.ofList (digits.drop point.toNat)
  else if -6 < point ∧ point ≤ 0 then
    "0." ++ zeros (-point).toNat ++ String.ofList digits
  else
    let power := point - 1
    let sign := if power < 0 then "-" else "+"
    let fraction := digits.drop 1
    String.ofList (digits.take 1) ++ (if fraction = [] then "" else "." ++ String.ofList fraction)
      ++ "e" ++ sign ++ toString power.natAbs

/-- The text of a number. -/
def ofFloat (x : Float) : String :=
  match Binary64.decode x with
  | .nan => "NaN"
  | .infinite negative => if negative then "-Infinity" else "Infinity"
  | .finite negative mantissa exponent =>
    if mantissa = 0 then "0"
    else (if negative then "-" else "") ++ ofDecimal (Shortest.decimal mantissa exponent)

end LeadSheet.Notation
