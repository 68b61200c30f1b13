import LeadSheet.Timeline.Channel
import LeadSheet.Sorting.Runs
import LeadSheet.Harmony.Chord

/-!
# From a score to a timeline

A timeline holds a score's notes as events at absolute times: every note, every tone of a chord and
every drum hit gives an event that starts it and one that ends it. All times follow the tempo of the
song. Events are sorted by time; events of one time keep the order of the score, section by section,
in a section track by track and then the drums, in a track first the notes and then the chords.
-/

namespace LeadSheet

/-- Whether an event starts a note or ends one. -/
inductive EventKind where
  | noteOn
  | noteOff
  deriving DecidableEq, Repr

/-- An event of a timeline. -/
structure TimedEvent (α : Type) where
  kind : EventKind
  /-- Seconds from the start of the song. -/
  seconds : α
  channel : Nat
  pitch : α
  /-- From 0 to 127; zero if the event ends a note. -/
  velocity : Int
  track : String
  deriving DecidableEq, Repr

/-- A score laid out in time, with the plan it is played by. -/
structure Timeline (α : Type) where
  /-- The events in order of time. -/
  events : List (TimedEvent α)
  channels : List (Assignment α)
  tempo : α
  durationSeconds : α
  deriving DecidableEq, Repr

namespace Timeline

variable {α : Type} [Scalar α]

/-- A drum hit ends this long after it starts, in seconds. -/
def drumHitSeconds : α := Scalar.ofDecimal 1 1

/-- The two events of a note. -/
def pair (track : String) (channel : Nat) (pitch : α) (velocity : Int) (start stop : α) :
    List (TimedEvent α) :=
  [⟨.noteOn, start, channel, pitch, velocity, track⟩, ⟨.noteOff, stop, channel, pitch, 0, track⟩]

/-- Seconds that so many beats take at a tempo. -/
def secondsOf (tempo beats : α) : α := beats / (tempo / (60 : α))

/-- The events of a note whose section starts at a time. -/
def noteEvents (tempo sectionStart : α) (track : String) (channel : Nat) (n : Note α) :
    List (TimedEvent α) :=
  let start := sectionStart + secondsOf tempo n.start
  let stop := start + secondsOf tempo n.duration
  pair track channel (clampPitch n.pitch) (Scalar.sevenBit n.velocity) start stop

/-- The events of a chord, one pair for each pitch. -/
def chordEvents (v : Vocabulary α) (tempo sectionStart : α) (track : String) (channel : Nat)
    (c : Chord α) : List (TimedEvent α) :=
  let start := sectionStart + secondsOf tempo c.start
  let stop := start + secondsOf tempo c.duration
  (c.pitches v).flatMap fun pitch =>
    pair track channel pitch (Scalar.sevenBit c.velocity) start stop

/-- The events of a drum hit. -/
def hitEvents (v : Vocabulary α) (tempo sectionStart : α) (h : DrumHit α) : List (TimedEvent α) :=
  let start := sectionStart + secondsOf tempo h.start
  pair Default.drumTrackName drumChannel (clampPitch (v.drumKey h.drum))
    (Scalar.sevenBit h.velocity) start (start + drumHitSeconds)

/-- The events of a track. -/
def trackEvents (v : Vocabulary α) (tempo sectionStart : α) (channel : Nat) (t : Track α) :
    List (TimedEvent α) :=
  t.notes.flatMap (noteEvents tempo sectionStart t.name channel)
    ++ t.chords.flatMap (chordEvents v tempo sectionStart t.name channel)

/-- The events of a section. -/
def sectionEvents (v : Vocabulary α) (tempo : α) (plan : List (Assignment α)) (s : Section α) :
    List (TimedEvent α) :=
  let sectionStart := secondsOf tempo s.startBeat
  s.tracks.flatMap (fun t => trackEvents v tempo sectionStart (channelOf plan t.name) t)
    ++ match s.drums with
      | some drums => drums.hits.flatMap (hitEvents v tempo sectionStart)
      | none => []

/-- The events of a score, in the order of the score. -/
def enumerate (v : Vocabulary α) (s : Score α) : List (TimedEvent α) :=
  s.sections.flatMap (sectionEvents v s.tempo (assignChannels v s))

/-- Whether an event is earlier than another one. -/
def earlier (a b : TimedEvent α) : Bool := a.seconds < b.seconds

/-- Lays a score out in time. -/
def ofScore (v : Vocabulary α) (s : Score α) : Timeline α where
  events := Sorting.sort earlier (enumerate v s)
  channels := assignChannels v s
  tempo := s.tempo
  durationSeconds := s.durationSeconds

end Timeline

end LeadSheet
