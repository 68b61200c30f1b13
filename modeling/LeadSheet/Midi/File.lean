import LeadSheet.Midi.Message

/-!
# MIDI files that were read

A file is a list of tracks, a track a list of events with the tick each of them happens at. Of the
channel messages only notes, controllers and program changes are kept. A data byte that would lie
beyond the end of the file is missing.
-/

namespace LeadSheet.Midi

/-- What happens at an event. -/
inductive EventBody where
  | noteOn (channel : Nat) (note velocity : Option UInt8)
  | noteOff (channel : Nat) (note velocity : Option UInt8)
  | controlChange (channel : Nat) (controller value : Option UInt8)
  | programChange (channel : Nat) (program : Option UInt8)
  | metadata (kind : Option UInt8) (data : List UInt8)
  deriving DecidableEq, Repr

namespace EventBody

/-- The kind of a meta event. -/
def metaKind? : EventBody → Option UInt8
  | metadata kind _ => kind
  | _ => none

/-- The text of a meta event, for the kinds that hold text. -/
def text? : EventBody → Option String
  | metadata (some kind) data => if 1 ≤ kind ∧ kind ≤ 7 then some (latin data) else none
  | _ => none

end EventBody

/-- An event of a track. -/
structure FileEvent where
  /-- Ticks from the start of the track. -/
  tick : Nat
  body : EventBody
  deriving DecidableEq, Repr

/-- A track of a file. -/
structure FileTrack where
  events : List FileEvent
  deriving DecidableEq, Repr

/-- The name of a track: the text of the last event that names it. -/
def FileTrack.name? (t : FileTrack) : Option String :=
  (t.events.reverse.find? fun e => e.body.metaKind? = some trackNameMeta).bind (·.body.text?)

/-- A MIDI file. -/
structure File where
  format : Nat
  trackCount : Nat
  /-- Ticks a beat. -/
  ppq : Nat
  tracks : List FileTrack
  deriving DecidableEq, Repr

/-- The microseconds a beat that an event sets. -/
def EventBody.microseconds? : EventBody → Option Nat
  | metadata (some kind) [a, b, c] =>
    if kind = tempoMeta then some (a.toNat * 0x10000 + b.toNat * 0x100 + c.toNat) else none
  | _ => none

/-- The first tempo of a file, in beats a minute. -/
def File.tempo? {α : Type} [Scalar α] (file : File) : Option α :=
  let events := file.tracks.flatMap (·.events)
  (events.findSome? fun e => e.body.microseconds?).map fun n => beatsPerMinute (Scalar.ofNat n)

end LeadSheet.Midi
