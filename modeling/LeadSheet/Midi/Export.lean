import LeadSheet.Midi.Message
import LeadSheet.Number.Notation
import LeadSheet.Timeline.Channel
import LeadSheet.Sorting.Runs
import LeadSheet.Harmony.Chord

/-!
# Scores as MIDI files

A score is written as a file of format 1. The first track holds the tempo. A track for each track
name follows, sorted by name, with the notes of all sections, and then one for the drums if there
are any hits.

Positions are ticks, so many a beat. Within a track events are sorted by tick, at one tick setup
before note ends and note ends before note starts, so that a note repeated without a gap sounds
again. A note lasts a tenth of a beat at least.
-/

namespace LeadSheet.Midi

/-- What a file is written with. -/
structure ExportOptions (α : Type) where
  /-- Ticks a beat. -/
  ppq : α
  /-- Whether tracks are named in the file. -/
  trackNames : Bool
  /-- Whether volume and pan are written. -/
  mixer : Bool
  deriving DecidableEq, Repr

/-- Why a score cannot be written. -/
inductive ExportError (α : Type) where
  /-- There is no section. -/
  | noSections (title : String)
  /-- The time between two events is not a natural number of ticks. -/
  | badDelta (delta : α)
  deriving DecidableEq, Repr

/-- The message that a number cannot be written as a quantity. -/
def badQuantityMessage (x : Float) : String :=
  "VLQ value must be a non-negative integer: " ++ Notation.ofFloat x

/-- The message of an error. -/
def ExportError.message : ExportError Float → String
  | noSections _ => "Score has no sections to export"
  | badDelta delta => badQuantityMessage delta

/-- What a file says about one of its tracks. -/
structure TrackInfo (α : Type) where
  name : String
  channel : Nat
  /-- None for the drums. -/
  program : Option α
  noteCount : Nat
  deriving DecidableEq, Repr

/-- A file that was written. -/
structure Exported (α : Type) where
  bytes : List UInt8
  trackCount : Nat
  durationTicks : α
  ppq : α
  tracks : List (TrackInfo α)
  deriving DecidableEq, Repr

/-- What goes first at one tick. -/
inductive Rank where
  | setup
  | noteOff
  | noteOn
  deriving DecidableEq, Repr

/-- The place of a rank. -/
def Rank.place : Rank → Nat
  | setup => 0
  | noteOff => 1
  | noteOn => 2

/-- A message at a tick of a track. -/
structure Cue (α : Type) where
  tick : α
  rank : Rank
  bytes : List UInt8
  deriving DecidableEq, Repr

/-- A track to be written. -/
structure CueTrack (α : Type) where
  name : String
  cues : List (Cue α)
  deriving DecidableEq, Repr

variable {α : Type} [Scalar α]

/-- The options where none are given. -/
def ExportOptions.standard : ExportOptions α := ⟨Scalar.ofNat 480, true, true⟩

/-! ## Cues -/

/-- The shortest note, in beats. -/
def shortestNote : α := Scalar.ofDecimal 1 1

/-- The length of a drum hit, in beats. -/
def drumHitBeats : α := Scalar.ofDecimal 25 2

/-- The tick of a position in beats. -/
def ticksOf (ppq beats : α) : α := Scalar.round (beats * ppq)

/-- Start and end of a note that starts at a beat of the song. -/
def noteCues (ppq : α) (channel : Nat) (pitch start duration velocity : α) : List (Cue α) :=
  let note := Scalar.truncate (clampPitch pitch)
  let loudness := Max.max 1 (Scalar.sevenBit velocity)
  let stop := start + Scalar.max shortestNote duration
  [⟨ticksOf ppq start, .noteOn, noteOn channel note loudness⟩,
    ⟨ticksOf ppq stop, .noteOff, noteOff channel note 0⟩]

/-- A message at the start of a track. -/
def setupCue (bytes : List UInt8) : Cue α := ⟨0, .setup, bytes⟩

/-- Volume and pan of a channel. -/
def mixerCues (channel : Nat) (volume pan : α) : List (Cue α) :=
  [setupCue (controlChange channel volumeController (Scalar.sevenBit volume)),
    setupCue (controlChange channel panController (Scalar.sevenBit pan))]

/-- The cues of a chord, two for each of its pitches. -/
def chordCues (v : Vocabulary α) (ppq : α) (channel : Nat) (sectionStart : α) (c : Chord α) :
    List (Cue α) :=
  (c.pitches v).flatMap fun pitch =>
    noteCues ppq channel pitch (sectionStart + c.start) c.duration c.velocity

/-- The cues of a track of a section. -/
def trackCues (v : Vocabulary α) (ppq : α) (channel : Nat) (sectionStart : α) (t : Track α) :
    List (Cue α) :=
  t.notes.flatMap (fun n =>
      noteCues ppq channel n.pitch (sectionStart + n.start) n.duration n.velocity)
    ++ t.chords.flatMap (chordCues v ppq channel sectionStart)

omit [Scalar α] in
/-- The tracks of a section with a name. -/
def tracksNamed (name : String) (s : Section α) : List (Track α) :=
  s.tracks.filter (·.name == name)

/-- The notes that cues start. -/
def noteCount (cues : List (Cue α)) : Nat := cues.countP (·.rank == .noteOn)

/-- The track of a name: its notes, its program, and the mixer settings of the first section that
has it. -/
def instrumentTrack (v : Vocabulary α) (options : ExportOptions α) (s : Score α) (channel : Nat)
    (name : String) : CueTrack α × TrackInfo α :=
  let notes := s.sections.flatMap fun part =>
    (tracksNamed name part).flatMap (trackCues v options.ppq channel part.startBeat)
  let first? := (s.sections.flatMap (tracksNamed name)).head?
  let program := match first? with
    | some first => v.melodicProgram first.instrument
    | none => v.defaultProgram
  let mixer := match first? with
    | some first => if options.mixer then mixerCues channel first.volume first.pan else []
    | none => []
  let change := setupCue (programChange channel (Scalar.truncate program))
  (⟨name, notes ++ change :: mixer⟩, ⟨name, channel, some program, noteCount notes⟩)

omit [Scalar α] in
/-- The drum tracks with hits, each with its section. -/
def drumParts (s : Score α) : List (Section α × DrumTrack α) :=
  s.sections.filterMap fun part =>
    match part.drums with
    | some drums => if drums.hits.isEmpty then none else some (part, drums)
    | none => none

/-- The track of the drums. Its volume is that of the first drum track with hits. -/
def drumTrack (v : Vocabulary α) (options : ExportOptions α) (s : Score α) :
    CueTrack α × TrackInfo α :=
  let notes := (drumParts s).flatMap fun (part, drums) =>
    drums.hits.flatMap fun h =>
      noteCues options.ppq drumChannel (v.drumKey h.drum) (part.startBeat + h.start)
        drumHitBeats h.velocity
  let mixer := match (drumParts s).head? with
    | some (_, first) =>
      if options.mixer then mixerCues drumChannel first.volume Default.trackPan else []
    | none => []
  (⟨Default.drumTrackName, notes ++ mixer⟩,
    ⟨Default.drumTrackName, drumChannel, none, noteCount notes⟩)

/-- The track names of a score, sorted by their code units. -/
def sortedNames (s : Score α) : List String :=
  Sorting.sort Text.unitsBefore ((firstOfEachName s.tracks).map (·.name))

/-- The track that holds the tempo. -/
def tempoTrack (s : Score α) : CueTrack α := ⟨"", [setupCue (setTempo s.tempo)]⟩

/-- The tracks of a score behind the one with the tempo. -/
def soundTracks (v : Vocabulary α) (options : ExportOptions α) (s : Score α) :
    List (CueTrack α × TrackInfo α) :=
  (sortedNames s).mapIdx (fun index name => instrumentTrack v options s (melodicChannel index) name)
    ++ if s.hasDrumHits then [drumTrack v options s] else []

/-! ## Chunks -/

/-- Whether a cue goes before another one. -/
def Cue.goesBefore (a b : Cue α) : Bool :=
  if a.tick < b.tick then true
  else if b.tick < a.tick then false
  else a.rank.place < b.rank.place

/-- The bytes of cues, each behind the time since the one before. A cue that lies before the one
before it follows at once. -/
def deltaBytes (previous : α) : List (Cue α) → Except (ExportError α) (List UInt8)
  | [] => .ok []
  | cue :: rest =>
    let delta := Scalar.max 0 (cue.tick - previous)
    match Quantity.encode? delta with
    | none => .error (.badDelta delta)
    | some time => (deltaBytes cue.tick rest).map fun bytes => time ++ cue.bytes ++ bytes

/-- A chunk: four letters, the length, the content. -/
def chunk (id : String) (content : List UInt8) : List UInt8 :=
  ascii id.toList ++ bigEndian 4 content.length ++ content

/-- The chunk of a track. -/
def trackChunk (names : Bool) (track : CueTrack α) : Except (ExportError α) (List UInt8) :=
  let name := if names && track.name ≠ "" then
      Quantity.encode 0 ++ trackName track.name.toList else []
  (deltaBytes 0 (Sorting.sort Cue.goesBefore track.cues)).map fun bytes =>
    chunk "MTrk" (name ++ bytes ++ Quantity.encode 0 ++ endOfTrack)

/-- The chunk a file starts with: format 1, the number of tracks, the ticks a beat. -/
def headerChunk (trackCount : Nat) (ppq : α) : List UInt8 :=
  chunk "MThd" (bigEndian 2 1 ++ bigEndian 2 trackCount ++ bigEndian 2 (Scalar.truncate ppq))

/-- The bytes of a file. -/
def fileBytes (options : ExportOptions α) (tracks : List (CueTrack α)) :
    Except (ExportError α) (List UInt8) :=
  (tracks.mapM (trackChunk options.trackNames)).map fun chunks =>
    headerChunk tracks.length options.ppq ++ chunks.flatten

/-- Writes a score as a MIDI file. -/
def exportScore (v : Vocabulary α) (options : ExportOptions α) (s : Score α) :
    Except (ExportError α) (Exported α) :=
  if s.sections.isEmpty then .error (.noSections s.title)
  else
    let sounds := soundTracks v options s
    let tracks := tempoTrack s :: sounds.map (·.1)
    (fileBytes options tracks).map fun bytes =>
      { bytes, trackCount := tracks.length, durationTicks := ticksOf options.ppq s.totalBeats
        ppq := options.ppq, tracks := sounds.map (·.2) }

end LeadSheet.Midi
