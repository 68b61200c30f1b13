import LeadSheet.Midi.File

/-!
# Reading MIDI files

The reader takes files of the formats 0 to 2 that count time in ticks a beat. A track is read event
by event until its chunk ends or an end-of-track event comes; the next chunk starts where the length
of the one before says. Only the start of an event has to lie inside its chunk: what belongs to the
event is read from the bytes behind, to the end of the file.

Every event takes at least one byte, so a chunk has no more events than bytes.
-/

namespace LeadSheet.Midi

/-- Why a file cannot be read. Offsets are counted in bytes from its start. -/
inductive ReadError where
  /-- A chunk should start here, but the file ends. -/
  | unexpectedEnd (offset : Nat)
  /-- The file does not start with a header. -/
  | noHeader (id : List UInt8)
  /-- The header is too short. -/
  | headerLength (length : Nat)
  | unsupportedFormat (format : Nat)
  /-- Time is not counted in ticks a beat. -/
  | timecode
  /-- Another chunk stands where a track should be. -/
  | noTrack (id : List UInt8) (offset : Nat)
  /-- A track is longer than the file. -/
  | trackTooLong (index stop size : Nat)
  /-- A message leaves out its status byte, but there is none it could share. -/
  | noStatus (offset : Nat)
  /-- A quantity takes more than four bytes. -/
  | quantityTooLong (offset : Nat)
  /-- The file ends inside a number of its header or of a chunk's. -/
  | numberBeyondEnd
  deriving DecidableEq, Repr

/-- The message of an error; a number beyond the end of the file has none. -/
def ReadError.message? : ReadError → Option String
  | unexpectedEnd offset => some ("Unexpected end of file at offset " ++ toString offset)
  | noHeader id => some ("Invalid MIDI file: expected 'MThd' header, got '" ++ latin id ++ "'")
  | headerLength length => some ("Invalid MIDI header length: " ++ toString length)
  | unsupportedFormat format => some ("Unsupported MIDI format: " ++ toString format)
  | timecode => some "SMPTE timing is not supported, only PPQ (ticks per quarter note)"
  | noTrack id offset =>
    some ("Invalid track chunk: expected 'MTrk', got '" ++ latin id ++ "' at offset "
      ++ toString offset)
  | trackTooLong index stop size =>
    some ("Track " ++ toString index ++ " extends beyond file: needs " ++ toString stop
      ++ ", have " ++ toString size)
  | noStatus offset => some ("Invalid running status at offset " ++ toString offset)
  | quantityTooLong offset => some ("Invalid VLQ: too many bytes at offset " ++ toString offset)
  | numberBeyondEnd => none

/-- A place in a file, with the bytes from there on. -/
structure Cursor where
  offset : Nat
  rest : List UInt8
  deriving DecidableEq, Repr

namespace Cursor

/-- The place so many bytes further on. -/
def advance (c : Cursor) (count : Nat) : Cursor := ⟨c.offset + count, c.rest.drop count⟩

/-- The quantity at a place. -/
def quantity (c : Cursor) : Except ReadError Quantity.Read :=
  match Quantity.read? c.rest with
  | some read => .ok read
  | none => .error (.quantityTooLong c.offset)

end Cursor

/-! ## Events -/

/-- What stands behind a status byte: perhaps an event that is kept, how many bytes it takes, and
whether it ends the track. -/
structure EventRead where
  body? : Option EventBody
  size : Nat
  last : Bool
  deriving DecidableEq, Repr

/-- Reads a meta event behind its status byte: the kind, a length, and so many bytes. -/
def readMeta (c : Cursor) : Except ReadError EventRead :=
  let kind := c.rest.head?
  (c.advance 1).quantity.map fun length =>
    let data := (c.advance (1 + length.size)).rest.take length.value
    { body? := some (.metadata kind data), size := 1 + length.size + length.value
      last := kind = some endOfTrackMeta }

/-- Reads a system-exclusive event behind its status byte: a length, and so many bytes. -/
def readExclusive (c : Cursor) : Except ReadError EventRead :=
  c.quantity.map fun length => ⟨none, length.size + length.value, false⟩

/-- Reads a channel message behind its status byte. Those that are not kept are passed over with
their data bytes. -/
def readChannelMessage (status : Nat) (c : Cursor) : EventRead :=
  let channel := status % 16
  let first := c.rest[0]?
  let second := c.rest[1]?
  match status / 16 with
  | 0x8 => ⟨some (.noteOff channel first second), 2, false⟩
  | 0x9 => ⟨some (.noteOn channel first second), 2, false⟩
  | 0xB => ⟨some (.controlChange channel first second), 2, false⟩
  | 0xC => ⟨some (.programChange channel first), 1, false⟩
  | 0xD => ⟨none, 1, false⟩
  | _ => ⟨none, 2, false⟩

/-- Reads what stands behind a status byte. -/
def readBody (status : Nat) (c : Cursor) : Except ReadError EventRead :=
  if status = 0xFF then readMeta c
  else if status = 0xF0 ∨ status = 0xF7 then readExclusive c
  else .ok (readChannelMessage status c)

/-- The status of the event at a place, the status that later events may share, and the place
behind the status byte. `running` is the status shared so far, zero if there is none. -/
def readStatus (running : Nat) (c : Cursor) (byte : UInt8) :
    Except ReadError (Nat × Nat × Cursor) :=
  if byte < 0x80 then
    if running = 0 then .error (.noStatus c.offset) else .ok (running, running, c)
  else .ok (byte.toNat, if byte < 0xF0 then byte.toNat else 0, c.advance 1)

/-- Reads the events of a track that ends at an offset; so many at most. -/
def readEvents (stop : Nat) : Nat → Cursor → Nat → Nat → Except ReadError (List FileEvent)
  | 0, _, _, _ => .ok []
  | count + 1, c, tick, running =>
    if stop ≤ c.offset then .ok []
    else
      match c.quantity with
      | .error e => .error e
      | .ok delta =>
        let tick := tick + delta.value
        let c := c.advance delta.size
        match c.rest with
        | [] => .ok []
        | byte :: _ =>
          if stop ≤ c.offset then .ok []
          else
            match readStatus running c byte with
            | .error e => .error e
            | .ok (status, running, c) =>
              match readBody status c with
              | .error e => .error e
              | .ok event =>
                let here := (event.body?.map fun body => ⟨tick, body⟩).toList
                if event.last then .ok here
                else
                  (readEvents stop count (c.advance event.size) tick running).map (here ++ ·)

/-! ## Chunks -/

/-- The four letters of a chunk. -/
def readId (bytes : List UInt8) (offset : Nat) : Except ReadError (List UInt8) :=
  let id := (bytes.drop offset).take 4
  if id.length < 4 then .error (.unexpectedEnd offset) else .ok id

/-- A number of so many bytes, the high byte first. -/
def readNumber (count : Nat) (bytes : List UInt8) (offset : Nat) : Except ReadError Nat :=
  let digits := (bytes.drop offset).take count
  if digits.length < count then .error .numberBeyondEnd
  else .ok (digits.foldl (fun n b => n * 256 + b.toNat) 0)

/-- Reads so many tracks, the first of them at an offset. `index` counts the tracks before. -/
def readTracks (bytes : List UInt8) : Nat → Nat → Nat → Except ReadError (List FileTrack)
  | 0, _, _ => .ok []
  | count + 1, index, offset => do
    let id ← readId bytes offset
    if id ≠ ascii "MTrk".toList then throw (.noTrack id offset)
    let length ← readNumber 4 bytes (offset + 4)
    let start := offset + 8
    let stop := start + length
    if bytes.length < stop then throw (.trackTooLong index stop bytes.length)
    let events ← readEvents stop length ⟨start, bytes.drop start⟩ 0 0
    let others ← readTracks bytes count (index + 1) stop
    return ⟨events⟩ :: others

/-- Reads a file. -/
def File.ofBytes (bytes : List UInt8) : Except ReadError File := do
  let id ← readId bytes 0
  if id ≠ ascii "MThd".toList then throw (.noHeader id)
  let length ← readNumber 4 bytes 4
  if length < 6 then throw (.headerLength length)
  let format ← readNumber 2 bytes 8
  if 2 < format then throw (.unsupportedFormat format)
  let trackCount ← readNumber 2 bytes 10
  let division ← readNumber 2 bytes 12
  if 0x8000 ≤ division then throw .timecode
  let tracks ← readTracks bytes trackCount 0 (8 + length)
  return { format, trackCount, ppq := division, tracks }

end LeadSheet.Midi
