import LeadSheet.Number.Scalar
import LeadSheet.Text.Case
import LeadSheet.Vocabulary.GeneralMidi

/-!
# Vocabularies

Every word with a fixed meaning that a sheet can hold is looked up in a vocabulary: codes for
durations and dynamics, names of notes, qualities of chords, instruments and drums. The vocabulary
is an argument of everything that needs it, so a caller can replace any of its tables.
-/

namespace LeadSheet

/-- What an instrument's name stands for. -/
inductive Voice (α : Type) where
  /-- A melodic program. -/
  | program (number : α)
  /-- The drum kit, which has a line of its own in a sheet. -/
  | percussion
  deriving DecidableEq, Repr

/-- The tables a sheet is read with. -/
structure Vocabulary (α : Type) where
  /-- Beats of a duration code. -/
  durations : List (String × α)
  /-- Velocity of a dynamics code, from zero to one. -/
  dynamics : List (String × α)
  /-- Semitones of a note name above C. -/
  semitones : List (String × α)
  /-- Intervals of a chord quality, in semitones above the root. -/
  qualities : List (String × List α)
  /-- Instruments by their names in lower case. -/
  instruments : List (String × Voice α)
  /-- The program of an instrument that is not in the table. -/
  defaultProgram : α
  /-- Percussion keys of drums by their names in lower case. -/
  drums : List (String × α)
  /-- The percussion key of a drum that is not in the table. -/
  defaultDrumKey : α
  deriving DecidableEq, Repr

namespace Vocabulary

variable {α : Type} [Scalar α]

/-- `w` is a whole note, `h` a half, `q` a quarter, `e` an eighth, `s` a sixteenth; `d` before it
makes it dotted, and `t` is an eighth of a triplet. -/
def defaultDurations : List (String × α) :=
  [("w", 4), ("h", 2), ("dh", 3), ("q", 1), ("dq", Scalar.ofDecimal 15 1),
    ("e", Scalar.ofDecimal 5 1), ("de", Scalar.ofDecimal 75 2), ("s", Scalar.ofDecimal 25 2),
    ("t", Scalar.ofDecimal 333 3)]

/-- From very soft to very loud. -/
def defaultDynamics : List (String × α) :=
  [("ppp", Scalar.ofDecimal 15 2), ("pp", Scalar.ofDecimal 25 2), ("p", Scalar.ofDecimal 4 1),
    ("mp", Scalar.ofDecimal 55 2), ("mf", Scalar.ofDecimal 7 1), ("f", Scalar.ofDecimal 85 2),
    ("ff", Scalar.ofDecimal 95 2), ("fff", 1)]

/-- The twelve semitones, with the usual sharps and flats. -/
def defaultSemitones : List (String × α) :=
  [("C", 0), ("C#", 1), ("Db", 1), ("D", 2), ("D#", 3), ("Eb", 3), ("E", 4), ("F", 5), ("F#", 6),
    ("Gb", 6), ("G", 7), ("G#", 8), ("Ab", 8), ("A", 9), ("A#", 10), ("Bb", 10), ("B", 11)]

/-- The common qualities; the empty one is a major triad. -/
def defaultQualities : List (String × List α) :=
  [("", [0, 4, 7]), ("m", [0, 3, 7]), ("7", [0, 4, 7, 10]), ("maj7", [0, 4, 7, 11]),
    ("m7", [0, 3, 7, 10]), ("dim", [0, 3, 6]), ("dim7", [0, 3, 6, 9]), ("aug", [0, 4, 8]),
    ("sus2", [0, 2, 7]), ("sus4", [0, 5, 7]), ("add9", [0, 4, 7, 14]), ("9", [0, 4, 7, 10, 14])]

/-- The General MIDI instruments. -/
def defaultInstruments : List (String × Voice α) :=
  GeneralMidi.programs.map (fun entry => (entry.1, .program (Scalar.ofNat entry.2)))
    ++ GeneralMidi.kitNames.map (fun name => (name, .percussion))

/-- The General MIDI drums. -/
def defaultDrums : List (String × α) :=
  GeneralMidi.drumKeys.map fun entry => (entry.1, Scalar.ofNat entry.2)

/-- The vocabulary that is used unless another one is given. -/
def standard : Vocabulary α where
  durations := defaultDurations
  dynamics := defaultDynamics
  semitones := defaultSemitones
  qualities := defaultQualities
  instruments := defaultInstruments
  defaultProgram := Scalar.ofNat GeneralMidi.defaultProgram
  drums := defaultDrums
  defaultDrumKey := Scalar.ofNat GeneralMidi.defaultDrumKey

omit [Scalar α] in
/-- What an instrument's name stands for; case does not matter. -/
def voice (v : Vocabulary α) (instrument : String) : Voice α :=
  (v.instruments.lookup (Text.lowerString instrument)).getD (.program v.defaultProgram)

omit [Scalar α] in
/-- The melodic program of an instrument's name; a name of the drum kit has the default one. -/
def melodicProgram (v : Vocabulary α) (instrument : String) : α :=
  match v.voice instrument with
  | .program number => number
  | .percussion => v.defaultProgram

omit [Scalar α] in
/-- The percussion key of a drum; case does not matter. -/
def drumKey (v : Vocabulary α) (drum : String) : α :=
  (v.drums.lookup (Text.lowerString drum)).getD v.defaultDrumKey

end Vocabulary

end LeadSheet
