import LeadSheet.Number.Scalar
import LeadSheet.Number.Binary64
import LeadSheet.Text.Blank

/-!
# Reading numerals

A numeral gives digits and a power of ten, and is read as the nearest number. This module holds
the parts that every reader of numbers shares, and the reader for numerals that stand alone, such
as the parts of a version: blanks around them do not count, nothing at all is zero, and hexadecimal,
octal and binary digits may follow `0x`, `0o` and `0b`.
-/

namespace LeadSheet.Numeral

/-- The digit a character stands for in any base up to sixteen. -/
def digitValue (c : Char) : Nat :=
  if c.isDigit then c.toNat - '0'.toNat
  else if 'a' ≤ c ∧ c ≤ 'f' then c.toNat - 'a'.toNat + 10
  else if 'A' ≤ c ∧ c ≤ 'F' then c.toNat - 'A'.toNat + 10
  else 0

/-- The number that digits write in a base. -/
def ofDigits (base : Nat) (digits : List Char) : Nat :=
  digits.foldl (fun n c => base * n + digitValue c) 0

/-- The double beyond every finite one. -/
def infinity : Float := 1 / 0

/-- The double nearest to `digits * 10 ^ exponent`. Numbers that are certainly too great or too
small are settled without working out the power. -/
def scaled (digits : Nat) (exponent : Int) : Float :=
  let size : Int := (Nat.toDigits 10 digits).length
  if digits = 0 then 0
  else if 310 < size + exponent then infinity
  else if size + exponent < -330 then 0
  else Float.ofScientific digits (exponent < 0) exponent.natAbs

/-- Splits off a power of ten such as `e-7`. A text that starts otherwise has the power zero; an
`e` without digits is refused. -/
def exponentPart? : List Char → Option (Int × List Char)
  | c :: rest =>
    if c = 'e' ∨ c = 'E' then
      let (negative, rest) := match rest with
        | '-' :: rest => (true, rest)
        | '+' :: rest => (false, rest)
        | rest => (false, rest)
      let digits := rest.takeWhile Char.isDigit
      let size : Int := ofDigits 10 digits
      if digits = [] then none
      else some (if negative then -size else size, rest.dropWhile Char.isDigit)
    else some (0, c :: rest)
  | [] => some (0, [])

/-- The double that digits before and after a point and a power of ten give. -/
def ofParts (whole fraction : List Char) (exponent : Int) : Float :=
  scaled (ofDigits 10 (whole ++ fraction)) (exponent - fraction.length)

/-- A decimal numeral without a sign, read to its end: digits with at most one point among or
beside them, then at most one power of ten. -/
def unsignedDecimal? (text : List Char) : Option Float :=
  let whole := text.takeWhile Char.isDigit
  let rest := text.dropWhile Char.isDigit
  let (fraction, rest) := match rest with
    | '.' :: rest => (rest.takeWhile Char.isDigit, rest.dropWhile Char.isDigit)
    | rest => ([], rest)
  if whole = [] ∧ fraction = [] then none
  else match exponentPart? rest with
    | some (exponent, []) => some (ofParts whole fraction exponent)
    | _ => none

/-- Digits of a base, all of them, at least one. -/
def inBase? (base : Nat) (text : List Char) : Option Float :=
  if text ≠ [] ∧ text.all (isDigitIn base) then some (Float.ofNat (ofDigits base text)) else none
where
  /-- Whether a character is a digit of the base. -/
  isDigitIn (base : Nat) (c : Char) : Bool :=
    (c.isDigit || ('a' ≤ c && c ≤ 'f') || ('A' ≤ c && c ≤ 'F')) && digitValue c < base

/-- A decimal numeral or `Infinity`, with a sign or without. -/
def signed? : List Char → Option Float
  | '-' :: rest => (magnitude? rest).map (- ·)
  | '+' :: rest => magnitude? rest
  | text => magnitude? text
where
  /-- The numeral behind the sign. -/
  magnitude? (text : List Char) : Option Float :=
    if text = "Infinity".toList then some infinity else unsignedDecimal? text

/-- Reads a numeral that stands alone; none if it is not one. -/
def standalone? (text : List Char) : Option Float :=
  match Text.trim text with
  | [] => some 0
  | '0' :: c :: rest =>
    if c = 'x' ∨ c = 'X' then inBase? 16 rest
    else if c = 'o' ∨ c = 'O' then inBase? 8 rest
    else if c = 'b' ∨ c = 'B' then inBase? 2 rest
    else signed? ('0' :: c :: rest)
  | text => signed? text

end LeadSheet.Numeral
