import LeadSheet.Number.Scalar
import LeadSheet.Text.Units

/-!
# Bytes of a MIDI file

Fixed-size numbers are written with the high byte first, and keep only the bits that fit. Delta
times and lengths are *quantities* of variable size: groups of seven bits, the highest first, every
byte but the last one with its top bit set. A quantity that is read may take four bytes at most.
Text is cut down to seven bits a character.
-/

namespace LeadSheet.Midi

/-- The low eight bits of a number. -/
def byteOf (n : Int) : UInt8 := UInt8.ofNat (n % 256).toNat

/-- The low bits of a number in so many bytes, the high byte first. -/
def bigEndian : Nat → Int → List UInt8
  | 0, _ => []
  | count + 1, n => bigEndian count (n / 256) ++ [byteOf n]

/-- A text with one byte for each character: the low seven bits of its first code unit. -/
def ascii (text : List Char) : List UInt8 :=
  text.map fun c => UInt8.ofNat ((Text.unitsOf c).headD 0 % 128)

/-- The text that bytes stand for, one character each. -/
def latin (bytes : List UInt8) : String := String.ofList (bytes.map fun b => Char.ofNat b.toNat)

/-! ## Quantities -/

namespace Quantity

/-- The bytes before the last one: the groups of a number above its lowest one, of which there are
at most so many. -/
def groups : Nat → Nat → List UInt8
  | 0, _ => []
  | count + 1, n =>
    if n = 0 then [] else groups count (n / 128) ++ [UInt8.ofNat (128 + n % 128)]

/-- The bytes of a 32-bit number. Only numbers below `2 ^ 28` fit into the four bytes that a reader
takes. -/
def encode (n : Nat) : List UInt8 :=
  let word := n % Nat.pow 2 32
  groups 4 (word / 128) ++ [UInt8.ofNat (word % 128)]

/-- The bytes of a number; none if it is not an integer or negative. -/
def encode? {α : Type} [Scalar α] (x : α) : Option (List UInt8) :=
  if x < (0 : α) then none else (Scalar.integer? x).map fun n => encode n.toNat

/-- A quantity that was read: its value and how many bytes it took. -/
structure Read where
  value : Nat
  size : Nat
  deriving DecidableEq, Repr

/-- Reads on behind the groups read so far. -/
def readFrom (value size : Nat) : List UInt8 → Option Read
  | [] => some ⟨value, size⟩
  | byte :: rest =>
    let value := value * 128 + byte.toNat % 128
    if byte < 128 then some ⟨value, size + 1⟩
    else if 4 ≤ size + 1 then none
    else readFrom value (size + 1) rest

/-- Reads the quantity that the bytes start with; none if it goes on behind four bytes. One that
the bytes end in counts as far as it goes. -/
def read? (bytes : List UInt8) : Option Read := readFrom 0 0 bytes

/-- Reads the quantity at an offset. -/
def readAt? (bytes : List UInt8) (offset : Nat) : Option Read := read? (bytes.drop offset)

/-- Reads the quantity at a number. One that is no offset, negative or between two bytes, gives a
zero if bytes follow it. -/
def readNear? {α : Type} [Scalar α] (bytes : List UInt8) (offset : α) : Option Read :=
  match Scalar.integer? offset with
  | some (.ofNat n) => readAt? bytes n
  | _ => some ⟨0, if offset < Scalar.ofNat bytes.length then 1 else 0⟩

end Quantity

end LeadSheet.Midi
