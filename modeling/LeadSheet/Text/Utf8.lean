/-!
# UTF-8

Files hold text as UTF-8. Writing is the usual encoding. Reading never fails: bytes that are not
UTF-8 become the replacement character, one for each longest run of bytes that could have started a
character.

The first byte of a character says how many more belong to it, and the range the second one must
lie in; that range is what keeps out overlong forms, surrogates and numbers beyond `U+10FFFF`.
-/

namespace LeadSheet.Text.Utf8

/-- The byte for six bits of a character's number, given by the value of the lowest of them. -/
def tailByte (n unit : Nat) : UInt8 := UInt8.ofNat (0x80 + n / unit % 0x40)

/-- The bytes of a character. -/
def encodeChar (c : Char) : List UInt8 :=
  let n := c.toNat
  if n < 0x80 then [UInt8.ofNat n]
  else if n < 0x800 then [UInt8.ofNat (0xC0 + n / 0x40), tailByte n 1]
  else if n < 0x10000 then [UInt8.ofNat (0xE0 + n / 0x1000), tailByte n 0x40, tailByte n 1]
  else
    [UInt8.ofNat (0xF0 + n / 0x40000), tailByte n 0x1000, tailByte n 0x40, tailByte n 1]

/-- The bytes of a text. -/
def encode (text : List Char) : List UInt8 := text.flatMap encodeChar

/-- What a first byte announces: its own part of the character's number, how many bytes follow, and
the range of the first of them. -/
structure Lead where
  bits : Nat
  tails : Nat
  low : Nat := 0x80
  high : Nat := 0xBF
  deriving DecidableEq, Repr

/-- The announcement of a first byte; none if no character starts with it. -/
def lead? (byte : Nat) : Option Lead :=
  if byte < 0x80 then some ⟨byte, 0, 0x80, 0xBF⟩
  else if 0xC2 ≤ byte ∧ byte ≤ 0xDF then some ⟨byte - 0xC0, 1, 0x80, 0xBF⟩
  else if byte = 0xE0 then some ⟨0, 2, 0xA0, 0xBF⟩
  else if byte = 0xED then some ⟨0xD, 2, 0x80, 0x9F⟩
  else if 0xE1 ≤ byte ∧ byte ≤ 0xEF then some ⟨byte - 0xE0, 2, 0x80, 0xBF⟩
  else if byte = 0xF0 then some ⟨0, 3, 0x90, 0xBF⟩
  else if 0xF1 ≤ byte ∧ byte ≤ 0xF3 then some ⟨byte - 0xF0, 3, 0x80, 0xBF⟩
  else if byte = 0xF4 then some ⟨4, 3, 0x80, 0x8F⟩
  else none

/-- The text of a byte sequence. `open?` is the character under way: its number so far and what the
next byte must satisfy. -/
def decodeFrom (open? : Option Lead) : List UInt8 → List Char
  | [] => if open?.isSome then ['\uFFFD'] else []
  | byte :: rest =>
    let n := byte.toNat
    match open? with
    | some lead =>
      if lead.low ≤ n ∧ n ≤ lead.high then
        let bits := lead.bits * 64 + (n - 0x80)
        if lead.tails ≤ 1 then Char.ofNat bits :: decodeFrom none rest
        else decodeFrom (some ⟨bits, lead.tails - 1, 0x80, 0xBF⟩) rest
      else '\uFFFD' :: begin n rest
    | none => begin n rest
where
  /-- Goes on with a byte that starts a character or is replaced. -/
  begin (n : Nat) (rest : List UInt8) : List Char :=
    match lead? n with
    | none => '\uFFFD' :: decodeFrom none rest
    | some lead =>
      if lead.tails = 0 then Char.ofNat lead.bits :: decodeFrom none rest
      else decodeFrom (some lead) rest

/-- The text of a byte sequence. -/
def decode (bytes : List UInt8) : List Char := decodeFrom none bytes

end LeadSheet.Text.Utf8
