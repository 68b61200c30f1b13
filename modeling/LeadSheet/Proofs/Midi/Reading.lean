import LeadSheet.Midi.Reader
import LeadSheet.Midi.Export
import LeadSheet.Proofs.Midi.Quantity

/-!
# Reading undoes printing

`File.bytes` prints a file the way the format says: chunks with their lengths, every event behind
the ticks since the one before, every status byte written out. It is nobody's program. It is where
the reader and the exporter meet: here the reader is shown to find every printed file again
(`ofBytes_bytes`), and an exported score is a printed file (`Proofs.Midi.RoundTrip`).

The reader carries an offset, the bytes behind it, the tick and the running status. What an event
does to them is one lemma (`readEvents_cons`); the running status is of no account, since every
printed event brings its own.
-/

namespace LeadSheet.Midi

/-! ## Printing -/

namespace EventBody

/-- The bytes of an event. -/
def bytes : EventBody → List UInt8
  | noteOff channel note velocity =>
    UInt8.ofNat (0x80 + channel) :: (note.toList ++ velocity.toList)
  | noteOn channel note velocity =>
    UInt8.ofNat (0x90 + channel) :: (note.toList ++ velocity.toList)
  | controlChange channel controller value =>
    UInt8.ofNat (0xB0 + channel) :: (controller.toList ++ value.toList)
  | programChange channel program => UInt8.ofNat (0xC0 + channel) :: program.toList
  | metadata kind data => 0xFF :: (kind.toList ++ Quantity.encode data.length ++ data)

/-- The channel of a channel message. -/
def channel? : EventBody → Option Nat
  | noteOff channel _ _ | noteOn channel _ _ | controlChange channel _ _
  | programChange channel _ => some channel
  | metadata _ _ => none

/-- No byte is missing, and what is written fits. -/
inductive Complete : EventBody → Prop where
  | noteOff {channel : Nat} (note velocity : UInt8) :
      channel < 16 → Complete (.noteOff channel (some note) (some velocity))
  | noteOn {channel : Nat} (note velocity : UInt8) :
      channel < 16 → Complete (.noteOn channel (some note) (some velocity))
  | controlChange {channel : Nat} (controller value : UInt8) :
      channel < 16 → Complete (.controlChange channel (some controller) (some value))
  | programChange {channel : Nat} (program : UInt8) :
      channel < 16 → Complete (.programChange channel (some program))
  | metadata (kind : UInt8) {data : List UInt8} :
      data.length < 2 ^ 28 → Complete (.metadata (some kind) data)

/-- Whether an event ends its track. -/
def endsTrack (body : EventBody) : Bool := body.metaKind? = some endOfTrackMeta

end EventBody

/-- Events, each behind the ticks since the one before. -/
def eventBytes (previous : Nat) : List FileEvent → List UInt8
  | [] => []
  | e :: rest => Quantity.encode (e.tick - previous) ++ e.body.bytes ++ eventBytes e.tick rest

/-- Events that can be told apart once they are printed: time does not go back, no wait is too long,
and the last event, and no other, ends the track. -/
inductive Readable : Nat → List FileEvent → Prop where
  | last {previous : Nat} {e : FileEvent} : previous ≤ e.tick → e.tick < previous + 2 ^ 28 →
      e.body.Complete → e.body.endsTrack = true → Readable previous [e]
  | cons {previous : Nat} {e : FileEvent} {rest : List FileEvent} : previous ≤ e.tick →
      e.tick < previous + 2 ^ 28 → e.body.Complete → e.body.endsTrack = false →
      Readable e.tick rest → Readable previous (e :: rest)

/-- The chunk of a track. -/
def FileTrack.bytes (t : FileTrack) : List UInt8 := chunk "MTrk" (eventBytes 0 t.events)

/-- The events are readable, and their bytes can be counted. -/
structure FileTrack.Fits (t : FileTrack) : Prop where
  readable : Readable 0 t.events
  length_lt : (eventBytes 0 t.events).length < 2 ^ 32

/-- The bytes of a file. -/
def File.bytes (file : File) : List UInt8 :=
  chunk "MThd" (bigEndian 2 file.format ++ bigEndian 2 file.trackCount ++ bigEndian 2 file.ppq)
    ++ (file.tracks.map FileTrack.bytes).flatten

/-- The numbers of the header are in range, and every track can be printed. -/
structure File.Fits (file : File) : Prop where
  format_le : file.format ≤ 2
  trackCount_eq : file.trackCount = file.tracks.length
  trackCount_lt : file.trackCount < 2 ^ 16
  ppq_lt : file.ppq < 2 ^ 15
  tracks : ∀ t ∈ file.tracks, t.Fits

/-! ## One event -/

/-- A body starts with a status byte, from which the reader tells the rest. -/
structure EventBody.StartsWith (body : EventBody) (status : UInt8) (data : List UInt8) : Prop where
  bytes_eq : body.bytes = status :: data
  isStatus : ¬status < 0x80
  readBody_eq : ∀ offset rest, readBody status.toNat ⟨offset, data ++ rest⟩
    = .ok ⟨some body, data.length, body.endsTrack⟩

/-- Below the exclusive messages a status byte is read as a channel message, of the kind that its
high four bits give and on the channel that its low four bits give. -/
theorem EventBody.StartsWith.channel {body : EventBody} (kind : Nat) {channel : Nat}
    {data : List UInt8} (hlow : 8 ≤ kind) (hhigh : kind ≤ 14) (hc : channel < 16)
    (hbytes : body.bytes = UInt8.ofNat (16 * kind + channel) :: data)
    (hread : ∀ status offset rest, status / 16 = kind → status % 16 = channel →
      readChannelMessage status ⟨offset, data ++ rest⟩
        = ⟨some body, data.length, body.endsTrack⟩) :
    body.StartsWith (UInt8.ofNat (16 * kind + channel)) data := by
  have hstatus : (UInt8.ofNat (16 * kind + channel)).toNat = 16 * kind + channel :=
    UInt8.toNat_ofNat_of_lt' (by rw [UInt8.size]; omega)
  refine ⟨hbytes, ?_, fun offset rest => ?_⟩
  · rw [UInt8.lt_iff_toNat_lt, hstatus]
    simp only [UInt8.reduceToNat]
    omega
  · rw [hstatus, readBody, if_neg (by omega), if_neg (by omega),
      hread _ offset rest (by omega) (by omega)]

theorem readMeta_printed (kind : UInt8) {data : List UInt8} (h : data.length < 2 ^ 28)
    (offset : Nat) (rest : List UInt8) :
    readMeta ⟨offset, kind :: (Quantity.encode data.length ++ (data ++ rest))⟩
      = .ok ⟨some (.metadata (some kind) data),
          1 + (Quantity.encode data.length).length + data.length,
          (EventBody.metadata (some kind) data).endsTrack⟩ := by
  have hquantity : Cursor.quantity ⟨offset + 1, Quantity.encode data.length ++ (data ++ rest)⟩
      = .ok ⟨data.length, (Quantity.encode data.length).length⟩ := by
    rw [Cursor.quantity, Quantity.read?_encode h]
  rw [readMeta, Cursor.advance, List.drop_one, List.tail_cons, hquantity]
  simp only [Except.map, Cursor.advance, Nat.add_comm 1, List.drop_succ_cons, List.drop_left,
    List.take_left, List.head?_cons, EventBody.endsTrack, EventBody.metaKind?]
  rfl

theorem EventBody.Complete.startsWith {body : EventBody} (h : body.Complete) :
    ∃ status data, body.StartsWith status data := by
  cases h with
  | noteOff note velocity hc =>
    exact ⟨_, _, .channel 8 (by decide) (by decide) hc rfl
      fun status offset rest hkind hchannel => by
        simp [readChannelMessage, hkind, hchannel, endsTrack, metaKind?]⟩
  | noteOn note velocity hc =>
    exact ⟨_, _, .channel 9 (by decide) (by decide) hc rfl
      fun status offset rest hkind hchannel => by
        simp [readChannelMessage, hkind, hchannel, endsTrack, metaKind?]⟩
  | controlChange controller value hc =>
    exact ⟨_, _, .channel 11 (by decide) (by decide) hc rfl
      fun status offset rest hkind hchannel => by
        simp [readChannelMessage, hkind, hchannel, endsTrack, metaKind?]⟩
  | programChange program hc =>
    exact ⟨_, _, .channel 12 (by decide) (by decide) hc rfl
      fun status offset rest hkind hchannel => by
        simp [readChannelMessage, hkind, hchannel, endsTrack, metaKind?]⟩
  | @metadata kind data hdata =>
    refine ⟨0xFF, kind :: (Quantity.encode data.length ++ data), rfl, by decide,
      fun offset rest => ?_⟩
    rw [readBody, if_pos (by decide), List.cons_append, List.append_assoc,
      readMeta_printed kind hdata, List.length_cons, List.length_append]
    congr 2
    omega

/-- What one printed event does to the reader. -/
theorem readEvents_cons (stop count offset running : Nat) (rest : List UInt8) {previous : Nat}
    {e : FileEvent} (hle : previous ≤ e.tick) (hlt : e.tick < previous + 2 ^ 28)
    (hbody : e.body.Complete)
    (hstop : offset + (Quantity.encode (e.tick - previous)).length < stop) :
    ∃ running', readEvents stop (count + 1)
        ⟨offset, Quantity.encode (e.tick - previous) ++ e.body.bytes ++ rest⟩ previous running
      = if e.body.endsTrack then .ok [e]
        else (readEvents stop count
          ⟨offset + (Quantity.encode (e.tick - previous) ++ e.body.bytes).length, rest⟩
          e.tick running').map (e :: ·) := by
  obtain ⟨status, data, h⟩ := hbody.startsWith
  have hquantity : Cursor.quantity ⟨offset,
      Quantity.encode (e.tick - previous) ++ (status :: (data ++ rest))⟩
      = .ok ⟨e.tick - previous, (Quantity.encode (e.tick - previous)).length⟩ := by
    rw [Cursor.quantity, Quantity.read?_encode (by omega)]
  have htick : previous + (e.tick - previous) = e.tick := by omega
  -- the status that is kept for later events is never asked for
  refine ⟨if status < 0xF0 then status.toNat else 0, ?_⟩
  rw [h.bytes_eq, List.append_assoc, List.cons_append, readEvents,
    if_neg (by dsimp only; omega), hquantity]
  simp only [Cursor.advance, List.drop_left, htick]
  rw [if_neg (by omega), readStatus, if_neg h.isStatus]
  simp only [Cursor.advance, List.drop_one, List.tail_cons, h.readBody_eq, List.drop_left,
    Option.map_some, Option.toList_some, List.singleton_append, List.length_append,
    List.length_cons, Nat.add_assoc, Nat.add_comm 1]

/-! ## A track of events -/

theorem Readable.length_le {previous : Nat} {events : List FileEvent}
    (h : Readable previous events) : events.length ≤ (eventBytes previous events).length := by
  induction h with
  | @last previous e _ _ _ _ =>
    have := Quantity.encode_length_pos (e.tick - previous)
    simp only [eventBytes, List.length_append, List.length_cons]
    omega
  | @cons previous e rest _ _ _ _ _ ih =>
    have := Quantity.encode_length_pos (e.tick - previous)
    simp only [eventBytes, List.length_append, List.length_cons]
    omega

theorem EventBody.Complete.bytes_length_pos {body : EventBody} (h : body.Complete) :
    0 < body.bytes.length := by
  obtain ⟨status, data, hstarts⟩ := h.startsWith
  rw [hstarts.bytes_eq]
  exact Nat.succ_pos _

/-- **The events of a track are read back**, whatever stands behind the track. The offset and what
is left to print add up to the end of the chunk all the way. -/
theorem readEvents_eventBytes {stop previous : Nat} {events : List FileEvent}
    (h : Readable previous events) :
    ∀ {count offset running : Nat} {rest : List UInt8}, events.length ≤ count →
      stop = offset + (eventBytes previous events).length →
      readEvents stop count ⟨offset, eventBytes previous events ++ rest⟩ previous running
        = .ok events := by
  induction h with
  | @last previous e hle hlt hbody hends =>
    intro count offset running rest hcount hstop
    obtain ⟨count, rfl⟩ : ∃ n, count = n + 1 := Nat.exists_eq_succ_of_ne_zero (by
      rw [List.length_singleton] at hcount; omega)
    have hpos := hbody.bytes_length_pos
    simp only [eventBytes, List.length_append, List.append_nil] at hstop ⊢
    obtain ⟨running', hstep⟩ := readEvents_cons stop count offset running rest hle hlt hbody
      (by omega)
    rw [hstep, if_pos hends]
  | @cons previous e events hle hlt hbody hends hreadable ih =>
    intro count offset running rest hcount hstop
    obtain ⟨count, rfl⟩ : ∃ n, count = n + 1 := Nat.exists_eq_succ_of_ne_zero (by
      rw [List.length_cons] at hcount; omega)
    have hpos := hbody.bytes_length_pos
    rw [List.length_cons] at hcount
    rw [eventBytes] at hstop ⊢
    rw [List.length_append, List.length_append] at hstop
    obtain ⟨running', hstep⟩ := readEvents_cons stop count offset running
      (eventBytes e.tick events ++ rest) hle hlt hbody (by omega)
    rw [List.append_assoc, hstep, hends, ih (by omega) (by rw [List.length_append]; omega)]
    rfl

/-! ## Chunks -/

variable {bytes : List UInt8} {offset : Nat} {first rest : List UInt8}

/-- What stands behind the bytes at an offset. -/
theorem drop_add_length (h : bytes.drop offset = first ++ rest) :
    bytes.drop (offset + first.length) = rest := by
  rw [← List.drop_drop, h, List.drop_left]

theorem readId_append (h : bytes.drop offset = first ++ rest) (hlength : first.length = 4) :
    readId bytes offset = .ok first := by
  have htake : (bytes.drop offset).take 4 = first := by
    rw [h, ← hlength, List.take_left]
  rw [readId, htake, if_neg (by omega)]

/-- A number is read as far as it was written. -/
theorem readNumber_bigEndian {count : Nat} {n : Int}
    (h : bytes.drop offset = bigEndian count n ++ rest) :
    readNumber count bytes offset = .ok (n % 256 ^ count).toNat := by
  have htake : (bytes.drop offset).take count = bigEndian count n := by
    rw [h, List.take_left' (bigEndian_length count n)]
  rw [readNumber, htake, if_neg (by rw [bigEndian_length]; omega), ← foldl_bigEndian_emod,
    Int.toNat_natCast]

theorem readNumber_append {count n : Nat} (h : bytes.drop offset = bigEndian count n ++ rest)
    (hn : n < 256 ^ count) : readNumber count bytes offset = .ok n := by
  rw [readNumber_bigEndian h, Int.emod_eq_of_lt (Int.natCast_nonneg n) (by exact_mod_cast hn),
    Int.toNat_natCast]

/-- What a chunk does to the reader of tracks. -/
theorem readTracks_chunk {content : List UInt8}
    (h : bytes.drop offset = chunk "MTrk" content ++ rest)
    (hlt : content.length < 2 ^ 32) (count index : Nat) :
    bytes.drop (offset + 8 + content.length) = rest ∧
      readTracks bytes (count + 1) index offset = do
        let events ← readEvents (offset + 8 + content.length) content.length
          ⟨offset + 8, content ++ rest⟩ 0 0
        let others ← readTracks bytes count (index + 1) (offset + 8 + content.length)
        return ⟨events⟩ :: others := by
  rw [chunk, List.append_assoc, List.append_assoc] at h
  have hid : "MTrk".toList.length = 4 := by decide
  -- what stands behind the identifier, behind the length and behind the events
  have hlength := drop_add_length h
  have hcontent := drop_add_length hlength
  have hothers := drop_add_length hcontent
  rw [ascii_length, hid] at hlength
  rw [ascii_length, hid, bigEndian_length, Nat.add_assoc] at hcontent
  rw [ascii_length, hid, bigEndian_length, Nat.add_assoc offset] at hothers
  have hstop : offset + 8 + content.length ≤ bytes.length := by
    have := congrArg List.length h
    rw [List.length_drop, List.length_append, List.length_append, List.length_append,
      ascii_length, hid, bigEndian_length] at this
    omega
  refine ⟨hothers, ?_⟩
  rw [readTracks, readId_append h (by rw [ascii_length, hid])]
  simp only [bind, Except.bind, ne_eq, not_true_eq_false, if_false, pure, Except.pure]
  rw [readNumber_append hlength (by omega)]
  simp only [if_neg (Nat.not_lt.mpr hstop)]
  rw [hcontent]

/-- **Tracks are read back**, one chunk after the other. -/
theorem readTracks_bytes : ∀ {tracks : List FileTrack} {offset index : Nat},
    (∀ t ∈ tracks, t.Fits) → bytes.drop offset = (tracks.map FileTrack.bytes).flatten ++ rest →
      readTracks bytes tracks.length index offset = .ok tracks
  | [], _, _, _, _ => rfl
  | t :: tracks, offset, index, hfits, hdrop => by
      have hfit := hfits t (List.mem_cons_self ..)
      rw [List.map_cons, List.flatten_cons, FileTrack.bytes, List.append_assoc] at hdrop
      obtain ⟨hothers, hread⟩ := readTracks_chunk hdrop hfit.length_lt tracks.length index
      rw [List.length_cons, hread,
        readEvents_eventBytes hfit.readable hfit.readable.length_le rfl,
        readTracks_bytes (fun u hu => hfits u (List.mem_cons_of_mem t hu)) hothers]
      rfl

/-- What a header does to the reader of files. -/
theorem ofBytes_header {format : Nat} (hformat : format ≤ 2) (count division : Int)
    (hbytes : bytes = chunk "MThd" (bigEndian 2 format ++ bigEndian 2 count ++ bigEndian 2 division)
      ++ rest) :
    bytes.drop 14 = rest ∧
      File.ofBytes bytes =
        if 0x8000 ≤ (division % 256 ^ 2).toNat then .error .timecode
        else (readTracks bytes (count % 256 ^ 2).toNat 0 14).map fun tracks =>
          ⟨format, (count % 256 ^ 2).toNat, (division % 256 ^ 2).toNat, tracks⟩ := by
  have hstart : bytes.drop 0 = ascii "MThd".toList ++ (bigEndian 4 6
      ++ (bigEndian 2 format ++ (bigEndian 2 count ++ (bigEndian 2 division ++ rest)))) := by
    simp [hbytes, chunk, List.append_assoc]
  have hid : (ascii "MThd".toList).length = 4 := by decide
  have hlength := drop_add_length hstart
  have hformatAt := drop_add_length hlength
  have hcount := drop_add_length hformatAt
  have hdivision := drop_add_length hcount
  have htracks := drop_add_length hdivision
  simp only [hid, bigEndian_length, Nat.zero_add, Nat.reduceAdd]
    at hlength hformatAt hcount hdivision htracks
  refine ⟨htracks, ?_⟩
  rw [File.ofBytes, readId_append hstart hid]
  simp only [bind, Except.bind, ne_eq, not_true_eq_false, if_false, pure, Except.pure]
  rw [readNumber_append (n := 6) hlength (by decide)]
  simp only [if_neg (show ¬6 < 6 by decide)]
  rw [readNumber_append hformatAt (by omega)]
  simp only [if_neg (Nat.not_lt.mpr hformat)]
  rw [readNumber_bigEndian hcount]
  simp only
  rw [readNumber_bigEndian hdivision]
  by_cases hticks : 0x8000 ≤ (division % 256 ^ 2).toNat
  · rw [if_pos hticks]
    exact if_pos hticks
  · rw [if_neg hticks]
    exact if_neg hticks

/-- **Reading undoes printing** for every file that can be printed. -/
theorem ofBytes_bytes {file : File} (h : file.Fits) : File.ofBytes file.bytes = .ok file := by
  have := h.trackCount_lt
  have := h.ppq_lt
  have hcount : ((file.trackCount : Int) % 256 ^ 2).toNat = file.trackCount := by omega
  have hppq : ((file.ppq : Int) % 256 ^ 2).toNat = file.ppq := by omega
  have hbytes : file.bytes = chunk "MThd" (bigEndian 2 file.format ++ bigEndian 2 file.trackCount
      ++ bigEndian 2 file.ppq) ++ (file.tracks.map FileTrack.bytes).flatten := rfl
  obtain ⟨htracks, hread⟩ := ofBytes_header h.format_le file.trackCount file.ppq hbytes
  rw [← List.append_nil (file.tracks.map FileTrack.bytes).flatten] at htracks
  rw [hcount, hppq, if_neg (by omega), h.trackCount_eq, readTracks_bytes h.tracks htracks] at hread
  rw [hread, ← h.trackCount_eq]
  rfl

end LeadSheet.Midi
