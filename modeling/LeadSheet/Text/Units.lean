/-!
# 16-bit code units

Some rules count or order characters by the 16-bit code units of their encoding: characters beyond
`U+FFFF` take two units, which lie below those of the characters from `U+E000` on. Track names are
ordered so, previews are cut so, and the 7-bit text of a MIDI track name takes the first unit of
each character.
-/

namespace LeadSheet.Text

/-- The code units of a character. -/
def unitsOf (c : Char) : List Nat :=
  let n := c.toNat
  if n < 0x10000 then [n] else [0xD800 + (n - 0x10000) / 0x400, 0xDC00 + (n - 0x10000) % 0x400]

/-- The code units of a text. -/
def units (text : List Char) : List Nat := text.flatMap unitsOf

/-- Whether one string comes before another in the order of their code units. -/
def unitsBefore (a b : String) : Bool := decide (units a.toList < units b.toList)

/-- The first so many code units. A character of which only the first unit remains is replaced. -/
def takeUnits : Nat → List Char → List Char
  | 0, _ => []
  | _, [] => []
  | count + 1, c :: rest =>
    if c.toNat < 0x10000 then c :: takeUnits count rest
    else match count with
      | 0 => ['\uFFFD']
      | count + 1 => c :: takeUnits count rest

end LeadSheet.Text
