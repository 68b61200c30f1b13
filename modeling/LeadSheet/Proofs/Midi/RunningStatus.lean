import LeadSheet.Proofs.Midi.Writing

/-!
# Running status

A channel message that has the status of the channel message just before may leave its status byte
out. However many messages do so, the reader finds the same events at the same ticks as in the file
that has every status byte, also among messages that it passes over (`running_status_transparent`).

The reader goes through two streams of different lengths here, and what they have in common is the
status that the next message may share: it is that of the message just before, if that was a channel
message, whether its byte was written or not. So one lemma about one message is enough
(`readEvents_message`), and each stream is read by itself.
-/

namespace LeadSheet.Midi

/-! ## Messages -/

/-- The kinds of channel messages. -/
inductive ChannelKind where
  | noteOff
  | noteOn
  | keyPressure
  | controlChange
  | programChange
  | channelPressure
  | pitchBend
  deriving DecidableEq, Repr

namespace ChannelKind

/-- The high four bits of the status byte. -/
def code : ChannelKind → Nat
  | noteOff => 0x8
  | noteOn => 0x9
  | keyPressure => 0xA
  | controlChange => 0xB
  | programChange => 0xC
  | channelPressure => 0xD
  | pitchBend => 0xE

/-- How many data bytes there are. -/
def size : ChannelKind → Nat
  | programChange | channelPressure => 1
  | _ => 2

theorem code_bounds (kind : ChannelKind) : 8 ≤ kind.code ∧ kind.code ≤ 14 := by
  cases kind <;> decide

theorem size_pos (kind : ChannelKind) : 0 < kind.size := by
  cases kind <;> decide

end ChannelKind

/-- A channel message. Its data bytes have the top bit clear. -/
structure ChannelMessage where
  kind : ChannelKind
  channel : Fin 16
  data : List UInt8
  length_data : data.length = kind.size
  data_lt : ∀ byte ∈ data, byte < 0x80

namespace ChannelMessage

def status (m : ChannelMessage) : UInt8 := UInt8.ofNat (16 * m.kind.code + m.channel)

/-- What the reader keeps of a message. -/
def body? (m : ChannelMessage) : Option EventBody :=
  match m.kind with
  | .noteOff => some (.noteOff m.channel m.data[0]? m.data[1]?)
  | .noteOn => some (.noteOn m.channel m.data[0]? m.data[1]?)
  | .controlChange => some (.controlChange m.channel m.data[0]? m.data[1]?)
  | .programChange => some (.programChange m.channel m.data[0]?)
  | .keyPressure | .channelPressure | .pitchBend => none

end ChannelMessage

/-- A message that does not end its track. -/
inductive Message where
  | channel (m : ChannelMessage)
  | metadata (kind : UInt8) (data : List UInt8) (kind_ne : kind ≠ endOfTrackMeta)
      (length_lt : data.length < 2 ^ 28)
  /-- A system-exclusive message, or one that goes on with it. -/
  | exclusive (continued : Bool) (data : List UInt8) (length_lt : data.length < 2 ^ 28)

namespace Message

def status : Message → UInt8
  | channel m => m.status
  | metadata _ _ _ _ => 0xFF
  | exclusive continued _ _ => if continued then 0xF7 else 0xF0

/-- The bytes behind the status byte. -/
def data : Message → List UInt8
  | channel m => m.data
  | metadata kind data _ _ => kind :: (Quantity.encode data.length ++ data)
  | exclusive _ data _ => Quantity.encode data.length ++ data

/-- What the reader keeps of a message. -/
def body? : Message → Option EventBody
  | channel m => m.body?
  | metadata kind data _ _ => some (.metadata (some kind) data)
  | exclusive _ _ _ => none

/-- The status that the next message may share. -/
def shared? : Message → Option UInt8
  | channel m => some m.status
  | metadata _ _ _ _ | exclusive _ _ _ => none

end Message

/-- A message with the ticks since the one before. -/
structure TimedMessage where
  wait : Nat
  message : Message
  wait_lt : wait < 2 ^ 28

/-- A track as a list of messages and the ticks from the last one to the end. -/
structure Sequence where
  messages : List TimedMessage
  closing : Nat
  closing_lt : closing < 2 ^ 28

/-! ## Writing and what it tells -/

/-- The status byte of a message. It is left out where that is wanted and the message just before
has the same status to share. -/
def statusBytes (wanted : Bool) (shared : Option UInt8) (status : UInt8) : List UInt8 :=
  if wanted = true ∧ shared = some status then [] else [status]

/-- The bytes of a message behind one that has a status to share, or has none. -/
def TimedMessage.bytes (m : TimedMessage) (wanted : Bool) (shared : Option UInt8) : List UInt8 :=
  Quantity.encode m.wait ++ (statusBytes wanted shared m.message.status ++ m.message.data)

/-- The bytes of messages and of the end of the track. The first message has a number, and
`leaveOut` says for which numbers a status byte is to be left out. -/
def messageBytes (leaveOut : Nat → Bool) (closing : Nat) :
    Nat → Option UInt8 → List TimedMessage → List UInt8
  | _, _, [] => Quantity.encode closing ++ endOfTrack
  | number, shared, m :: rest =>
    m.bytes (leaveOut number) shared
      ++ messageBytes leaveOut closing (number + 1) m.message.shared? rest

/-- The events that messages tell from a tick on, with the one that ends the track. -/
def toldEvents (closing : Nat) : Nat → List TimedMessage → List FileEvent
  | tick, [] => [endEvent (tick + closing)]
  | tick, m :: rest =>
    (m.message.body?.map (FileEvent.mk (tick + m.wait))).toList
      ++ toldEvents closing (tick + m.wait) rest

namespace Sequence

/-- The bytes of a track with status bytes left out. -/
def bytes (s : Sequence) (leaveOut : Nat → Bool) : List UInt8 :=
  messageBytes leaveOut s.closing 0 none s.messages

/-- The bytes of a track with every status byte. -/
def spelledOut (s : Sequence) : List UInt8 := s.bytes fun _ => false

/-- The events of a track. -/
def events (s : Sequence) : List FileEvent := toldEvents s.closing 0 s.messages

end Sequence

/-- A file with tracks of these bytes. -/
def fileOfTracks (format ppq : Nat) (tracks : List (List UInt8)) : List UInt8 :=
  chunk "MThd" (bigEndian 2 format ++ bigEndian 2 tracks.length ++ bigEndian 2 ppq)
    ++ (tracks.map (chunk "MTrk")).flatten

/-! ## Status bytes -/

namespace ChannelMessage

theorem toNat_status (m : ChannelMessage) : m.status.toNat = 16 * m.kind.code + m.channel := by
  have hcode := m.kind.code_bounds
  have hchannel := m.channel.isLt
  exact UInt8.toNat_ofNat_of_lt' (by rw [UInt8.size]; omega)

theorem status_bounds (m : ChannelMessage) : ¬m.status < 0x80 ∧ m.status < 0xF0 := by
  have hcode := m.kind.code_bounds
  have hchannel := m.channel.isLt
  have hstatus := m.toNat_status
  rw [UInt8.lt_iff_toNat_lt, UInt8.lt_iff_toNat_lt]
  change ¬m.status.toNat < 128 ∧ m.status.toNat < 240
  omega

end ChannelMessage

namespace Message

theorem status_not_lt (m : Message) : ¬m.status < 0x80 := by
  match m with
  | channel m => exact m.status_bounds.1
  | metadata _ _ _ _ => exact (by decide : ¬(0xFF : UInt8) < 0x80)
  | exclusive true _ _ => exact (by decide : ¬(0xF7 : UInt8) < 0x80)
  | exclusive false _ _ => exact (by decide : ¬(0xF0 : UInt8) < 0x80)

/-- The messages below the exclusive ones share their status, and the others share nothing. -/
theorem shared?_eq (m : Message) : m.shared? = if m.status < 0xF0 then some m.status else none := by
  match m with
  | channel m => exact (if_pos m.status_bounds.2).symm
  | metadata _ _ _ _ => rfl
  | exclusive true _ _ => rfl
  | exclusive false _ _ => rfl

/-- Where the status byte of a channel message would be, there is a data byte. -/
theorem data_of_shared? {m : Message} {status : UInt8} (h : m.shared? = some status) :
    ∃ byte more, m.data = byte :: more ∧ byte < 0x80 := by
  cases m with
  | channel m =>
    have hpos : 0 < m.data.length := m.length_data ▸ m.kind.size_pos
    obtain ⟨byte, more, hdata⟩ := List.exists_cons_of_length_pos hpos
    exact ⟨byte, more, hdata, m.data_lt byte (hdata ▸ List.mem_cons_self)⟩
  | metadata => cases h
  | exclusive => cases h

end Message

/-- A status to share is that of a channel message. -/
def Shareable (shared : Option UInt8) : Prop := ∀ status ∈ shared, ¬status < 0x80 ∧ status < 0xF0

theorem Message.shareable (m : Message) : Shareable m.shared? := by
  intro status hstatus
  rw [m.shared?_eq] at hstatus
  split at hstatus
  · next hlow =>
    cases hstatus
    exact ⟨m.status_not_lt, hlow⟩
  · cases hstatus

/-- What the reader keeps of a status to share. -/
def runningStatus (shared : Option UInt8) : Nat := (shared.map UInt8.toNat).getD 0

theorem runningStatus_ne_zero {status : UInt8} (h : ¬status < 0x80) :
    runningStatus (some status) ≠ 0 := by
  intro hzero
  rw [UInt8.lt_iff_toNat_lt, show status.toNat = 0 from hzero] at h
  exact h (by decide)

/-- **The status of a message is found**, whether it is written or shared, and what the next message
may share is the same in both cases. -/
theorem readStatus_message (m : Message) (wanted : Bool) {shared : Option UInt8}
    (hshared : Shareable shared) (offset : Nat) (rest : List UInt8) :
    ∃ byte more, statusBytes wanted shared m.status ++ m.data ++ rest = byte :: more ∧
      readStatus (runningStatus shared) ⟨offset, byte :: more⟩ byte
        = .ok (m.status.toNat, runningStatus m.shared?,
            ⟨offset + (statusBytes wanted shared m.status).length, m.data ++ rest⟩) := by
  unfold statusBytes
  split
  · next hleft =>
    obtain ⟨-, rfl⟩ := hleft
    obtain ⟨hhigh, hlow⟩ := hshared m.status rfl
    have hsame : m.shared? = some m.status := by rw [m.shared?_eq, if_pos hlow]
    obtain ⟨byte, more, hdata, hbyte⟩ := Message.data_of_shared? hsame
    refine ⟨byte, more ++ rest, by rw [hdata]; rfl, ?_⟩
    rw [readStatus, if_pos hbyte, if_neg (runningStatus_ne_zero hhigh), hsame, hdata]
    rfl
  · refine ⟨m.status, m.data ++ rest, rfl, ?_⟩
    rw [readStatus, if_neg m.status_not_lt, m.shared?_eq]
    congr 2
    split <;> rfl

/-! ## What stands behind a status byte -/

theorem readChannelMessage_data (m : ChannelMessage) (offset : Nat) (rest : List UInt8) :
    readChannelMessage m.status.toNat ⟨offset, m.data ++ rest⟩
      = ⟨m.body?, m.data.length, false⟩ := by
  have hchannel := m.channel.isLt
  have hkind : m.status.toNat / 16 = m.kind.code := by
    rw [m.toNat_status]
    omega
  have hlow : m.status.toNat % 16 = m.channel := by
    rw [m.toNat_status]
    omega
  have hlength := m.length_data
  unfold readChannelMessage ChannelMessage.body?
  rw [hkind, hlow, hlength]
  -- the bytes that are read are those of the message
  cases hm : m.kind with
  | programChange | channelPressure =>
    rw [hm] at hlength
    obtain ⟨a, hdata⟩ := List.length_eq_one_iff.mp hlength
    rw [hdata]
    rfl
  | noteOff | noteOn | keyPressure | controlChange | pitchBend =>
    rw [hm] at hlength
    obtain ⟨a, b, hdata⟩ := List.length_eq_two.mp hlength
    rw [hdata]
    rfl

theorem readExclusive_data {data : List UInt8} (h : data.length < 2 ^ 28) (offset : Nat)
    (rest : List UInt8) :
    readExclusive ⟨offset, Quantity.encode data.length ++ data ++ rest⟩
      = .ok ⟨none, (Quantity.encode data.length ++ data).length, false⟩ := by
  have hquantity : Cursor.quantity ⟨offset, Quantity.encode data.length ++ (data ++ rest)⟩
      = .ok ⟨data.length, (Quantity.encode data.length).length⟩ := by
    rw [Cursor.quantity, Quantity.read?_encode h]
  rw [readExclusive, List.append_assoc, hquantity, List.length_append]
  rfl

theorem readBody_data (m : Message) (offset : Nat) (rest : List UInt8) :
    readBody m.status.toNat ⟨offset, m.data ++ rest⟩ = .ok ⟨m.body?, m.data.length, false⟩ := by
  match m with
  | .channel m =>
    have hcode := m.kind.code_bounds
    have hstatus := m.toNat_status
    change readBody m.status.toNat _ = _
    rw [readBody, if_neg (by omega), if_neg (by omega)]
    exact congrArg Except.ok (readChannelMessage_data m offset rest)
  | .metadata kind data kind_ne length_lt =>
    have hlast : (EventBody.metadata (some kind) data).endsTrack = false := by
      simp [EventBody.endsTrack, EventBody.metaKind?, kind_ne]
    change readBody 0xFF ⟨offset, kind :: (Quantity.encode data.length ++ data ++ rest)⟩ = _
    rw [readBody, if_pos rfl, List.append_assoc, readMeta_printed kind length_lt, hlast]
    simp only [Message.body?, Message.data, List.length_cons, List.length_append]
    congr 2
    omega
  | .exclusive true data length_lt => exact readExclusive_data length_lt offset rest
  | .exclusive false data length_lt => exact readExclusive_data length_lt offset rest

/-! ## Reading a track -/

/-- **What one message does to the reader**, whether its status byte is written or left out. -/
theorem readEvents_message (m : TimedMessage) (wanted : Bool) {shared : Option UInt8}
    (hshared : Shareable shared) {stop offset : Nat}
    (hstop : offset + (Quantity.encode m.wait).length < stop) (count tick : Nat)
    (rest : List UInt8) :
    readEvents stop (count + 1) ⟨offset, m.bytes wanted shared ++ rest⟩ tick (runningStatus shared)
      = (readEvents stop count ⟨offset + (m.bytes wanted shared).length, rest⟩ (tick + m.wait)
          (runningStatus m.message.shared?)).map
            ((m.message.body?.map (FileEvent.mk (tick + m.wait))).toList ++ ·) := by
  obtain ⟨byte, more, hbytes, hstatus⟩ := readStatus_message m.message wanted hshared
    (offset + (Quantity.encode m.wait).length) rest
  have hquantity : Cursor.quantity ⟨offset, Quantity.encode m.wait ++ byte :: more⟩
      = .ok ⟨m.wait, (Quantity.encode m.wait).length⟩ := by
    rw [Cursor.quantity, Quantity.read?_encode m.wait_lt]
  rw [TimedMessage.bytes, List.append_assoc, hbytes, readEvents, if_neg (by dsimp only; omega),
    hquantity]
  simp only [Cursor.advance, List.drop_left]
  rw [if_neg (by omega), hstatus]
  simp only [readBody_data, List.drop_left, List.length_append, Nat.add_assoc]
  rw [if_neg Bool.false_ne_true]

/-- Every message takes a byte at least, and so does the end of the track. -/
theorem length_lt_messageBytes (leaveOut : Nat → Bool) (closing : Nat) :
    ∀ (number : Nat) (shared : Option UInt8) (messages : List TimedMessage),
      messages.length < (messageBytes leaveOut closing number shared messages).length
  | _, _, [] => by
      rw [messageBytes, List.length_append]
      exact Nat.add_pos_left (Quantity.encode_length_pos closing) _
  | number, _, m :: rest => by
      have hrest := length_lt_messageBytes leaveOut closing (number + 1) m.message.shared? rest
      have hwait := Quantity.encode_length_pos m.wait
      rw [messageBytes, TimedMessage.bytes, List.length_append, List.length_append,
        List.length_cons]
      omega

/-- **A track is read as the events that its messages tell**, whichever status bytes are left
out. -/
theorem readEvents_messageBytes {closing : Nat} (hclosing : closing < 2 ^ 28)
    (leaveOut : Nat → Bool) {stop : Nat} (rest : List UInt8) (messages : List TimedMessage) :
    ∀ {number count offset tick : Nat} {shared : Option UInt8}, Shareable shared →
      messages.length < count →
      stop = offset + (messageBytes leaveOut closing number shared messages).length →
      readEvents stop count ⟨offset, messageBytes leaveOut closing number shared messages ++ rest⟩
          tick (runningStatus shared)
        = .ok (toldEvents closing tick messages) := by
  induction messages with
  | nil =>
    intro number count offset tick shared hshared hcount hstop
    obtain ⟨count, rfl⟩ : ∃ n, count = n + 1 := Nat.exists_eq_succ_of_ne_zero (by omega)
    have hwait : (endEvent (tick + closing)).tick - tick = closing := Nat.add_sub_cancel_left ..
    have hlength : endOfTrack.length = 3 := rfl
    rw [messageBytes, List.length_append, hlength] at hstop
    obtain ⟨running, hend⟩ := readEvents_cons stop count offset (runningStatus shared) rest
      (e := endEvent (tick + closing)) (Nat.le_add_right tick closing)
      (Nat.add_lt_add_left hclosing tick) (.metadata endOfTrackMeta (by decide))
      (by rw [hwait]; omega)
    rw [hwait] at hend
    exact hend
  | cons m messages ih =>
    intro number count offset tick shared hshared hcount hstop
    obtain ⟨count, rfl⟩ : ∃ n, count = n + 1 := Nat.exists_eq_succ_of_ne_zero (by omega)
    have hpos := length_lt_messageBytes leaveOut closing (number + 1) m.message.shared? messages
    have hwait : (Quantity.encode m.wait).length ≤ (m.bytes (leaveOut number) shared).length := by
      rw [TimedMessage.bytes, List.length_append]
      omega
    rw [List.length_cons] at hcount
    rw [messageBytes, List.length_append] at hstop
    rw [messageBytes, List.append_assoc,
      readEvents_message m (leaveOut number) hshared (by omega),
      ih m.message.shareable (by omega) (by omega)]
    rfl

theorem readEvents_bytes (s : Sequence) (leaveOut : Nat → Bool) (offset : Nat) (rest : List UInt8) :
    readEvents (offset + (s.bytes leaveOut).length) (s.bytes leaveOut).length
      ⟨offset, s.bytes leaveOut ++ rest⟩ 0 0 = .ok s.events :=
  readEvents_messageBytes s.closing_lt leaveOut rest s.messages nofun
    (length_lt_messageBytes leaveOut s.closing 0 none s.messages) rfl

/-! ## Reading a file -/

/-- No track gets longer by leaving status bytes out. -/
theorem length_messageBytes_le (leaveOut : Nat → Bool) (closing : Nat) :
    ∀ (number : Nat) (shared : Option UInt8) (messages : List TimedMessage),
      (messageBytes leaveOut closing number shared messages).length
        ≤ (messageBytes (fun _ => false) closing number shared messages).length
  | _, _, [] => le_rfl
  | number, shared, m :: rest => by
      have hrest := length_messageBytes_le leaveOut closing (number + 1) m.message.shared? rest
      have hstatus : (statusBytes (leaveOut number) shared m.message.status).length
          ≤ (statusBytes false shared m.message.status).length := by
        have hwritten : statusBytes false shared m.message.status = [m.message.status] :=
          if_neg fun h => Bool.false_ne_true h.1
        rw [hwritten, statusBytes]
        split
        · exact Nat.zero_le 1
        · exact le_rfl
      rw [messageBytes, messageBytes, TimedMessage.bytes, TimedMessage.bytes]
      simp only [List.length_append]
      omega

/-- **Tracks are read as the events that their messages tell**, one chunk after the other. -/
theorem readTracks_sequences {bytes rest : List UInt8} :
    ∀ {tracks : List (Sequence × (Nat → Bool))} {offset index : Nat},
      (∀ t ∈ tracks, t.1.spelledOut.length < 2 ^ 32) →
      bytes.drop offset = (tracks.map fun t => chunk "MTrk" (t.1.bytes t.2)).flatten ++ rest →
      readTracks bytes tracks.length index offset = .ok (tracks.map fun t => ⟨t.1.events⟩)
  | [], _, _, _, _ => rfl
  | (s, leaveOut) :: tracks, offset, index, hfits, hdrop => by
      obtain ⟨hfirst, hothers⟩ := List.forall_mem_cons.mp hfits
      have hlength : (s.bytes leaveOut).length < 2 ^ 32 :=
        (length_messageBytes_le leaveOut s.closing 0 none s.messages).trans_lt hfirst
      rw [List.map_cons, List.flatten_cons, List.append_assoc] at hdrop
      obtain ⟨hbehind, hread⟩ := readTracks_chunk hdrop hlength tracks.length index
      rw [List.length_cons, hread, readEvents_bytes, readTracks_sequences hothers hbehind]
      rfl

theorem ofBytes_fileOfTracks {format ppq : Nat} (hformat : format ≤ 2) (hppq : ppq < 2 ^ 15)
    {tracks : List (Sequence × (Nat → Bool))} (hcount : tracks.length < 2 ^ 16)
    (hfits : ∀ t ∈ tracks, t.1.spelledOut.length < 2 ^ 32) :
    File.ofBytes (fileOfTracks format ppq (tracks.map fun t => t.1.bytes t.2))
      = .ok ⟨format, tracks.length, ppq, tracks.map fun t => ⟨t.1.events⟩⟩ := by
  have hcounted : ((tracks.length : Int) % 256 ^ 2).toNat = tracks.length := by omega
  have hdivision : ((ppq : Int) % 256 ^ 2).toNat = ppq := by omega
  have hbytes : fileOfTracks format ppq (tracks.map fun t => t.1.bytes t.2)
      = chunk "MThd" (bigEndian 2 format ++ bigEndian 2 tracks.length ++ bigEndian 2 ppq)
        ++ (tracks.map fun t => chunk "MTrk" (t.1.bytes t.2)).flatten := by
    rw [fileOfTracks, List.length_map, List.map_map]
    rfl
  obtain ⟨htracks, hread⟩ := ofBytes_header hformat tracks.length ppq hbytes
  rw [← List.append_nil (tracks.map _).flatten] at htracks
  rw [hread, hcounted, hdivision, if_neg (by omega), readTracks_sequences hfits htracks]
  rfl

/-- **Running status is transparent.** However many channel messages leave out the status byte that
they share with the message just before, a file is read as if every status byte were there: into the
events that its messages tell, at the ticks that their waits add up to. -/
theorem running_status_transparent {format ppq : Nat} (hformat : format ≤ 2) (hppq : ppq < 2 ^ 15)
    {tracks : List (Sequence × (Nat → Bool))} (hcount : tracks.length < 2 ^ 16)
    (hfits : ∀ t ∈ tracks, t.1.spelledOut.length < 2 ^ 32) :
    File.ofBytes (fileOfTracks format ppq (tracks.map fun t => t.1.bytes t.2))
        = File.ofBytes (fileOfTracks format ppq (tracks.map fun t => t.1.spelledOut)) ∧
      File.ofBytes (fileOfTracks format ppq (tracks.map fun t => t.1.spelledOut))
        = .ok ⟨format, tracks.length, ppq, tracks.map fun t => ⟨t.1.events⟩⟩ := by
  -- the file with every status byte is one of those with status bytes left out
  let whole : List (Sequence × (Nat → Bool)) := tracks.map fun t => (t.1, fun _ => false)
  have hlength : whole.length = tracks.length := List.length_map ..
  have hwhole : ∀ t ∈ whole, t.1.spelledOut.length < 2 ^ 32 := by
    intro t ht
    obtain ⟨u, hu, rfl⟩ := List.mem_map.mp ht
    exact hfits u hu
  have hspelled := ofBytes_fileOfTracks hformat hppq (hlength ▸ hcount) hwhole
  rw [hlength, List.map_map, List.map_map] at hspelled
  exact ⟨(ofBytes_fileOfTracks hformat hppq hcount hfits).trans hspelled.symm, hspelled⟩

/-- A note with a bend. Between messages of one status stand a text and an exclusive message. -/
def bentNote : Sequence where
  messages :=
    [⟨0, .channel ⟨.noteOn, 3, [60, 100], rfl, by simp⟩, by decide⟩,
      ⟨0, .channel ⟨.pitchBend, 3, [0, 64], rfl, by simp⟩, by decide⟩,
      ⟨200, .channel ⟨.pitchBend, 3, [0, 0], rfl, by simp⟩, by decide⟩,
      ⟨0, .metadata 1 [72, 105] (by decide) (by decide), by decide⟩,
      ⟨0, .channel ⟨.pitchBend, 3, [0, 64], rfl, by simp⟩, by decide⟩,
      ⟨5, .exclusive true [0xF7] (by decide), by decide⟩,
      ⟨1, .channel ⟨.noteOn, 3, [60, 0], rfl, by simp⟩, by decide⟩,
      ⟨0, .channel ⟨.noteOn, 3, [62, 1], rfl, by simp⟩, by decide⟩]
  closing := 7
  closing_lt := by decide

/-- Two of its status bytes can be left out. -/
theorem running_status_transparent_bentNote :
    bentNote.bytes (fun _ => true)
        = [0, 0x93, 60, 100, 0, 0xE3, 0, 64, 0x81, 0x48, 0, 0, 0, 0xFF, 1, 2, 72, 105, 0, 0xE3, 0,
          64, 5, 0xF7, 1, 0xF7, 1, 0x93, 60, 0, 0, 62, 1, 7, 0xFF, 0x2F, 0] ∧
      File.ofBytes (fileOfTracks 0 96 [bentNote.bytes fun _ => true])
        = .ok ⟨0, 1, 96, [⟨[⟨0, .noteOn 3 (some 60) (some 100)⟩,
            ⟨200, .metadata (some 1) [72, 105]⟩, ⟨206, .noteOn 3 (some 60) (some 0)⟩,
            ⟨206, .noteOn 3 (some 62) (some 1)⟩, ⟨213, .metadata (some 0x2F) []⟩]⟩]⟩ := by
  have hformat : 0 ≤ 2 := by decide
  have hppq : 96 < 2 ^ 15 := by decide
  have hcount : [(bentNote, fun _ : Nat => true)].length < 2 ^ 16 := by decide
  obtain ⟨hsame, htold⟩ := running_status_transparent hformat hppq hcount
    (List.forall_mem_singleton.mpr (by decide))
  exact ⟨by decide, hsame.trans htold⟩

end LeadSheet.Midi
