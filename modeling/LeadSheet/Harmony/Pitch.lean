import LeadSheet.Vocabulary.Basic
import LeadSheet.Text.Scan

/-!
# Pitches

A pitch class is spelled with a letter and perhaps an accidental; with an octave it is a MIDI
pitch, middle C being the C of octave 4. A note token such as `F#3` is a pitch class and one octave
digit.
-/

namespace LeadSheet

variable {α : Type} [Scalar α]

/-- A pitch class as it is spelled in tables: the first character in upper case. -/
def spellPitchClass : List Char → List Char
  | [] => []
  | c :: rest => if c.toNat < 0x10000 then Text.Case.upper c ++ rest else c :: rest

/-- The spelling of a letter with an accidental. -/
def noteName (letter accidental : String) : String :=
  String.ofList (Text.toUpper letter.toList) ++ accidental

/-- Semitones of a pitch class above C; none at all for an unknown name. -/
def semitoneOf (v : Vocabulary α) (name : String) : α :=
  (v.semitones.lookup (String.ofList (spellPitchClass name.toList))).getD 0

/-- The MIDI pitch of a pitch class in an octave. -/
def pitchOf (v : Vocabulary α) (name : String) (octave : α) : α :=
  semitoneOf v name + (octave + (1 : α)) * (12 : α)

/-- A pitch brought into the range of MIDI. -/
def clampPitch (pitch : α) : α := Scalar.clamp (0 : α) (127 : α) pitch

/-- Whether a character is a letter from A to G, in either case. -/
def isNoteLetter (c : Char) : Bool := ('A' ≤ c && c ≤ 'G') || ('a' ≤ c && c ≤ 'g')

/-- Whether a character is a sharp or a flat. -/
def isAccidental (c : Char) : Bool := c == '#' || c == 'b'

/-- Splits off a note letter, with the accidental behind it if there is one. The letter comes back
in upper case. -/
def rootOf? : List Char → Option (List Char × List Char)
  | letter :: accidental :: rest =>
    if !isNoteLetter letter then none
    else if isAccidental accidental then some ([letter.toUpper, accidental], rest)
    else some ([letter.toUpper], accidental :: rest)
  | [letter] => if isNoteLetter letter then some ([letter.toUpper], []) else none
  | [] => none

/-- A pitch class with an octave, and the MIDI pitch they make. -/
structure NoteToken (α : Type) where
  name : String
  octave : Nat
  pitch : α
  deriving DecidableEq, Repr

/-- Reads a note token: a root, then one octave digit and nothing else. -/
def NoteToken.ofText? (v : Vocabulary α) (token : List Char) : Option (NoteToken α) :=
  match rootOf? token with
  | some (root, [digit]) =>
    if digit.isDigit then
      let octave := digit.toNat - '0'.toNat
      let name := String.ofList root
      some ⟨name, octave, pitchOf v name (Scalar.ofNat octave)⟩
    else none
  | _ => none

end LeadSheet
