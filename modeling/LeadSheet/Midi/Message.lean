import LeadSheet.Midi.Bytes

/-!
# MIDI messages

The messages a score needs, as bytes. Channel messages keep the low four bits of a channel and the
low seven bits of their values, so every message is well formed whatever it is given.
-/

namespace LeadSheet.Midi

/-! ## Controllers and meta events -/

def bankController : Int := 0

def volumeController : Int := 7

def panController : Int := 10

def allNotesOffController : Int := 123

def trackNameMeta : UInt8 := 0x03

def endOfTrackMeta : UInt8 := 0x2F

def tempoMeta : UInt8 := 0x51

/-! ## Channel messages -/

/-- The status byte of a kind of message on a channel. -/
def status (kind : Nat) (channel : Int) : UInt8 := UInt8.ofNat (kind + (channel % 16).toNat)

/-- The low seven bits of a value. -/
def dataByte (value : Int) : UInt8 := UInt8.ofNat (value % 128).toNat

def noteOn (channel note velocity : Int) : List UInt8 :=
  [status 0x90 channel, dataByte note, dataByte velocity]

def noteOff (channel note velocity : Int) : List UInt8 :=
  [status 0x80 channel, dataByte note, dataByte velocity]

def controlChange (channel controller value : Int) : List UInt8 :=
  [status 0xB0 channel, dataByte controller, dataByte value]

def programChange (channel program : Int) : List UInt8 := [status 0xC0 channel, dataByte program]

/-! ## Tempo -/

variable {α : Type} [Scalar α]

/-- Microseconds in a minute. -/
def microsecondsPerMinute : Nat := 60000000

/-- Microseconds a beat, rounded, at so many beats a minute. -/
def microsecondsPerBeat (tempo : α) : α :=
  Scalar.round (Scalar.ofNat microsecondsPerMinute / tempo)

/-- Beats a minute at so many microseconds a beat. -/
def beatsPerMinute (microseconds : α) : α := Scalar.ofNat microsecondsPerMinute / microseconds

/-! ## Meta events -/

/-- The event that sets the tempo. -/
def setTempo (tempo : α) : List UInt8 :=
  [0xFF, tempoMeta, 3] ++ bigEndian 3 (Scalar.truncate (microsecondsPerBeat tempo))

/-- The event that names a track. -/
def trackName (name : List Char) : List UInt8 :=
  [0xFF, trackNameMeta] ++ Quantity.encode (ascii name).length ++ ascii name

/-- The event that ends a track. -/
def endOfTrack : List UInt8 := [0xFF, endOfTrackMeta, 0]

end LeadSheet.Midi
