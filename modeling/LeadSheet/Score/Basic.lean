import LeadSheet.Number.Scalar

/-!
# Scores

A score is a list of sections played one after the other. A section has melodic tracks, each with
notes and chords, and perhaps a drum track. Times inside a section are in beats from its start;
every bar has four beats, and the whole song has one tempo. A section's own key, tempo and time
signature are information only.

Chords are kept as they were written, as a root, a quality and an octave. Which pitches they stand
for is decided when they are sounded (`Harmony.Chord`).
-/

namespace LeadSheet

/-- A note: pitch and velocity, where it starts in its section and how long it lasts, in beats. -/
structure Note (α : Type) where
  pitch : α
  start : α
  duration : α
  velocity : α
  deriving DecidableEq, Repr

/-- A chord as written. -/
structure Chord (α : Type) where
  /-- A letter with perhaps an accidental. -/
  root : String
  /-- The rest of the symbol, such as `m7`; empty for a major triad. -/
  quality : String
  octave : α
  start : α
  duration : α
  velocity : α
  deriving DecidableEq, Repr

/-- One stroke on a drum, which is given by name. -/
structure DrumHit (α : Type) where
  drum : String
  start : α
  velocity : α
  deriving DecidableEq, Repr

/-- A melodic track of a section. -/
structure Track (α : Type) where
  /-- The name shown, and the name by which tracks of different sections belong together. -/
  name : String
  /-- The key into the table of instruments. -/
  instrument : String
  notes : List (Note α)
  chords : List (Chord α)
  /-- From zero to one. -/
  volume : α
  /-- From zero, left, to one, right. -/
  pan : α
  deriving DecidableEq, Repr

/-- The drum track of a section. -/
structure DrumTrack (α : Type) where
  name : String
  hits : List (DrumHit α)
  volume : α
  deriving DecidableEq, Repr

/-- A section of a song. -/
structure Section (α : Type) where
  name : String
  bars : α
  /-- The bars before this section. -/
  startBar : α
  key : Option String
  tempo : Option α
  tracks : List (Track α)
  drums : Option (DrumTrack α)
  deriving DecidableEq, Repr

/-- A song. -/
structure Score (α : Type) where
  title : String
  /-- Beats a minute. -/
  tempo : α
  key : String
  timeSignature : String
  sections : List (Section α)
  deriving DecidableEq, Repr

/-! ## What is taken where nothing is given -/

namespace Default

variable {α : Type} [Scalar α]

def title : String := "Untitled"

def tempo : Nat := 120

def key : String := "C"

def timeSignature : String := "4/4"

def sectionBars : Nat := 8

def noteVelocity : α := Scalar.ofDecimal 7 1

def hitVelocity : α := Scalar.ofDecimal 8 1

def trackVolume : α := Scalar.ofDecimal 8 1

def trackPan : α := Scalar.ofDecimal 5 1

def drumTrackName : String := "Drums"

end Default

/-! ## Lengths -/

/-- Every bar has four beats. -/
def beatsPerBar : Nat := 4

variable {α : Type} [Scalar α]

/-- Beats of a section. -/
def Section.beats (s : Section α) : α := s.bars * Scalar.ofNat beatsPerBar

/-- Beats before a section. -/
def Section.startBeat (s : Section α) : α := s.startBar * Scalar.ofNat beatsPerBar

/-- Whether the section has at least one drum hit. -/
def Section.hasDrumHits (s : Section α) : Bool :=
  match s.drums with
  | some drums => !drums.hits.isEmpty
  | none => false

namespace Score

/-- Bars of the song. -/
def totalBars (s : Score α) : α := s.sections.foldl (fun sum s => sum + s.bars) 0

/-- Beats of the song. -/
def totalBeats (s : Score α) : α := s.totalBars * Scalar.ofNat beatsPerBar

/-- Seconds of the song at its tempo. -/
def durationSeconds (s : Score α) : α := s.totalBeats / s.tempo * (60 : α)

/-- Whether any section has at least one drum hit. -/
def hasDrumHits (s : Score α) : Bool := s.sections.any (·.hasDrumHits)

end Score

/-! ## Placing sections -/

/-- The sections one after the other, the first of them at a bar. -/
def placeFrom (bar : α) : List (Section α) → List (Section α)
  | [] => []
  | s :: rest => { s with startBar := bar } :: placeFrom (bar + s.bars) rest

/-- The sections one after the other from the first bar on. -/
def placeSections (sections : List (Section α)) : List (Section α) := placeFrom 0 sections

/-- The score with its sections one after the other. -/
def Score.placed (s : Score α) : Score α := { s with sections := placeSections s.sections }

end LeadSheet
