import LeadSheet.Proofs.Midi.Consistent

/-!
# Where the events of a file were read

The reader looks where a chunk ends when an event starts, and once more behind its wait, but not
while it takes the message. So every event that it lists starts inside its chunk, with a wait that
is there to its end, and every event that another one follows lies inside as a whole. The last event
of a track may pass the end of the chunk: it is read from the bytes behind, which belong to another
chunk, and what lies beyond the end of the file is missing from it (`readings_of_ofBytes`). A file
that was cut off in the middle of a message is thus read as if it were whole (`cutNote_is_read`).

Bytes that are no status are taken for data whatever they are. Only the first byte of a message that
shares its status is known to have seven bits, since else the reader would take it for a status.
-/

namespace LeadSheet.Midi

/-! ## The value of a quantity -/

/-- A quantity has seven bits for each of its bytes, of which there are four at most. -/
theorem Quantity.value_lt_of_readFrom {bytes : List UInt8} {value size : Nat}
    {read : Quantity.Read} (h : readFrom value size bytes = some read) (hvalue : value < 128 ^ size)
    (hsize : size ≤ 3) : read.value < 2 ^ 28 := by
  induction bytes generalizing value size with
  | nil =>
    cases h
    have := Nat.pow_le_pow_right (by decide : 0 < 128) hsize
    show value < 2 ^ 28
    omega
  | cons byte bytes ih =>
    have hnext : value * 128 + byte.toNat % 128 < 128 ^ (size + 1) := by
      rw [Nat.pow_succ]
      omega
    rw [readFrom] at h
    split at h
    · cases h
      have := Nat.pow_le_pow_right (by decide : 0 < 128) (Nat.succ_le_succ hsize)
      exact Nat.lt_of_lt_of_le hnext this
    · split at h
      · cases h
      · exact ih h hnext (by omega)

theorem Cursor.value_lt_of_quantity {c : Cursor} {read : Quantity.Read}
    (h : c.quantity = .ok read) : read.value < 2 ^ 28 :=
  Quantity.value_lt_of_readFrom (Cursor.quantity_eq_ok.mp h) (by decide) (by decide)

/-! ## Readings -/

/-- An event and where it was read. -/
structure Reading where
  event : FileEvent
  /-- Where its wait starts. -/
  wait : Nat
  /-- Where its message starts, behind the wait. -/
  message : Nat
  /-- Where its data start: behind its status byte, or with the message if it shares a status. -/
  data : Nat
  /-- Where what follows it starts. -/
  stop : Nat

/-- An event was read from a chunk on: its wait is in the chunk to its end, and so is the first byte
of its message; its fields are the bytes that stand behind. -/
structure Reading.Begun (bytes : List UInt8) (start stop : Nat) (r : Reading) : Prop where
  start_le : start ≤ r.wait
  wait_closed : Quantity.Closed bytes r.wait r.message
  message_lt : r.message < stop
  status : ∃ byte, bytes[r.message]? = some byte ∧
    (byte < 0x80 ∧ r.data = r.message ∨ ¬byte < 0x80 ∧ r.data = r.message + 1)
  channel_lt : ∀ channel ∈ r.event.body.channel?, channel < 16
  fields : r.event.body.ReadAt bytes r.data r.stop

/-- An event lies inside its chunk as a whole: it has all its fields, and the length of a meta event
is there to its end, with as many bytes behind it as it says. -/
structure Reading.Inside (bytes : List UInt8) (stop : Nat) (r : Reading) : Prop where
  stop_le : r.stop ≤ stop
  complete : r.event.body.Complete
  length_closed : ∀ kind content, r.event.body = .metadata kind content →
    ∃ start, Quantity.Closed bytes (r.data + 1) start ∧ r.stop = start + content.length

section

variable {bytes : List UInt8} {start stop : Nat} {r : Reading}

theorem Reading.Begun.mono {start' : Nat} (h : r.Begun bytes start stop) (hle : start' ≤ start) :
    r.Begun bytes start' stop :=
  { h with start_le := hle.trans h.start_le }

theorem Reading.Begun.wait_lt (h : r.Begun bytes start stop) : r.wait < stop := by
  obtain ⟨groups, last, rest, -, hmessage, -, -⟩ := h.wait_closed
  have := h.message_lt
  omega

/-- Bytes before the end of a file are there. -/
theorem exists_byte {offset : Nat} (h : offset < bytes.length) : ∃ b, bytes[offset]? = some b :=
  ⟨_, List.getElem?_eq_getElem h⟩

theorem exists_two_bytes {offset : Nat} (h : offset + 2 ≤ bytes.length) :
    ∃ first second, bytes[offset]? = some first ∧ bytes[offset + 1]? = some second := by
  obtain ⟨first, hfirst⟩ := exists_byte (by omega : offset < bytes.length)
  obtain ⟨second, hsecond⟩ := exists_byte (by omega : offset + 1 < bytes.length)
  exact ⟨first, second, hfirst, hsecond⟩

theorem length_content {offset length : Nat} (h : offset + length ≤ bytes.length) :
    ((bytes.drop offset).take length).length = length := by
  rw [List.length_take, List.length_drop]
  omega

/-- An event that does not pass the end of the file has all its fields. -/
theorem Reading.Begun.complete (h : r.Begun bytes start stop) (hle : r.stop ≤ bytes.length) :
    r.event.body.Complete := by
  have hchannel := h.channel_lt
  have hfields := h.fields
  generalize r.event.body = body at hchannel hfields ⊢
  cases body with
  | noteOff channel note velocity =>
    obtain ⟨rfl, rfl, hstop⟩ := hfields
    obtain ⟨first, second, hfirst, hsecond⟩ := exists_two_bytes (hstop ▸ hle)
    rw [hfirst, hsecond]
    exact .noteOff first second (hchannel channel rfl)
  | noteOn channel note velocity =>
    obtain ⟨rfl, rfl, hstop⟩ := hfields
    obtain ⟨first, second, hfirst, hsecond⟩ := exists_two_bytes (hstop ▸ hle)
    rw [hfirst, hsecond]
    exact .noteOn first second (hchannel channel rfl)
  | controlChange channel controller value =>
    obtain ⟨rfl, rfl, hstop⟩ := hfields
    obtain ⟨first, second, hfirst, hsecond⟩ := exists_two_bytes (hstop ▸ hle)
    rw [hfirst, hsecond]
    exact .controlChange first second (hchannel channel rfl)
  | programChange channel program =>
    obtain ⟨rfl, hstop⟩ := hfields
    obtain ⟨first, hfirst⟩ := exists_byte (by omega : r.data < bytes.length)
    rw [hfirst]
    exact .programChange first (hchannel channel rfl)
  | metadata kind content =>
    obtain ⟨rfl, length, hlength, rfl, hstop⟩ := hfields
    obtain ⟨first, hfirst⟩ := exists_byte (by omega : r.data < bytes.length)
    rw [hfirst]
    refine .metadata first ?_
    rw [length_content (by omega)]
    exact Cursor.value_lt_of_quantity hlength

/-- **An event that ends before its chunk does lies inside it.** -/
theorem Reading.Begun.inside (h : r.Begun bytes start stop) (hstop : stop ≤ bytes.length)
    (hlt : r.stop < stop) : r.Inside bytes stop := by
  refine ⟨hlt.le, h.complete (by omega), fun kind content hbody => ?_⟩
  have hfields := h.fields
  rw [hbody] at hfields
  obtain ⟨-, length, hlength, rfl, hend⟩ := hfields
  refine ⟨_, Cursor.closed_of_quantity hlength (by omega), ?_⟩
  rw [length_content (by omega), hend]

/-! ## Rounds leave readings -/

/-- What a round finds was read between where it starts and where it leaves the reader. -/
theorem exists_reading_of_takes {s : ReaderState} {round : Round} (h : Takes bytes stop s round)
    (hstop : stop ≤ bytes.length) {e : FileEvent} (he : round.found = some e) :
    ∃ r : Reading, r.event = e ∧ r.Begun bytes s.offset stop ∧ r.stop = round.state.offset := by
  cases h with
  | nothing => cases he
  | @message wait byte status running data event _ hwait hlt hbyte hdata _ hevent =>
    have hreads := reads_readBody hevent
    have hclosed := Cursor.closed_of_quantity hwait (by omega)
    obtain ⟨body, hbody, rfl⟩ := Option.map_eq_some_iff.mp he
    exact ⟨⟨⟨s.tick + wait.value, body⟩, s.offset, s.offset + wait.size, data, data + event.size⟩,
      rfl, ⟨Nat.le_refl _, hclosed, hlt, ⟨byte, hbyte, hdata⟩, hreads.channel_lt body hbody,
        hreads.readAt body hbody⟩, rfl⟩

/-- Events that may be read from a state on: each has its reading behind that of the one before. -/
def Placed (bytes : List UInt8) (stop : Nat) (s : ReaderState) (events : List FileEvent) : Prop :=
  ∃ readings : List Reading, events = readings.map (·.event) ∧
    (∀ r ∈ readings, r.Begun bytes s.offset stop) ∧
    readings.Pairwise fun a b => a.stop ≤ b.wait

theorem placed_of_last {s : ReaderState} {round : Round} (h : Takes bytes stop s round)
    (hstop : stop ≤ bytes.length) : Placed bytes stop s round.found.toList := by
  cases hr : round.found with
  | none => exact ⟨[], rfl, nofun, .nil⟩
  | some e =>
    obtain ⟨r, rfl, hbegun, -⟩ := exists_reading_of_takes h hstop hr
    exact ⟨[r], rfl, by simpa using hbegun, List.pairwise_singleton ..⟩

theorem Placed.next {s : ReaderState} {round : Round} {events : List FileEvent}
    (h : Takes bytes stop s round) (hstop : stop ≤ bytes.length)
    (hle : s.offset ≤ round.state.offset) (hevents : Placed bytes stop round.state events) :
    Placed bytes stop s (round.found.toList ++ events) := by
  obtain ⟨readings, rfl, hbegun, hpairs⟩ := hevents
  have hlater : ∀ r ∈ readings, r.Begun bytes s.offset stop := fun r hr => (hbegun r hr).mono hle
  cases hr : round.found with
  | none => exact ⟨readings, rfl, hlater, hpairs⟩
  | some e =>
    obtain ⟨first, rfl, hfirst, hend⟩ := exists_reading_of_takes h hstop hr
    refine ⟨first :: readings, rfl, List.forall_mem_cons.mpr ⟨hfirst, hlater⟩,
      List.pairwise_cons.mpr ⟨fun r hr => ?_, hpairs⟩⟩
    rw [hend]
    exact (hbegun r hr).start_le

theorem placed_of_readFrom {t : FileTrack} (hstop : stop ≤ bytes.length)
    (h : ReadFrom bytes start stop t) : Placed bytes stop ⟨start, 0, 0, none⟩ t.events := by
  refine readEvents_induction (fun _ _ htakes _ => placed_of_last htakes hstop) ?_ (Nat.le_refl _) h
  intro s round events htakes hlast hevents
  refine Placed.next htakes hstop ?_ hevents
  cases htakes with
  | nothing => cases hlast
  | message _ _ _ _ hdata =>
    dsimp only
    omega

/-- What has something behind it in a list of pairs in order. -/
theorem exists_of_mem_dropLast {β : Type} {R : β → β → Prop} {l : List β} (h : l.Pairwise R)
    {a : β} (ha : a ∈ l.dropLast) : ∃ b ∈ l, R a b := by
  have hne : l ≠ [] := by
    rintro rfl
    cases ha
  rw [← List.dropLast_concat_getLast hne] at h
  exact ⟨l.getLast hne, List.getLast_mem hne,
    (List.pairwise_append.mp h).2.2 a ha _ (List.mem_singleton_self _)⟩

end

/-- **Where events were read.** Each track of a file that was read comes from a chunk of its own,
and each of its events was read from there: the wait is in the chunk to its end, and so is the first
byte of the message. An event that another one follows lies inside the chunk as a whole. The last
one may pass the end of the chunk, but misses a field only if it passes the end of the file as well.
-/
theorem readings_of_ofBytes {bytes : List UInt8} {file : File} (h : File.ofBytes bytes = .ok file) :
    ∃ length, readNumber 4 bytes 4 = .ok length ∧
      EachChunk bytes (fun start stop t => ∃ readings : List Reading,
        t.events = readings.map (·.event) ∧
        (∀ r ∈ readings, r.Begun bytes start stop ∧
          (r.stop ≤ bytes.length → r.event.body.Complete)) ∧
        ∀ r ∈ readings.dropLast, r.Inside bytes stop) (8 + length) file.tracks := by
  obtain ⟨-, -, -, length, hlength, hchunks⟩ := eachChunk_of_ofBytes h
  refine ⟨length, hlength, hchunks.imp fun start stop t hstop ht => ?_⟩
  obtain ⟨readings, hevents, hbegun, hpairs⟩ := placed_of_readFrom hstop ht
  refine ⟨readings, hevents, fun r hr => ⟨hbegun r hr, (hbegun r hr).complete⟩, fun r hr => ?_⟩
  obtain ⟨next, hnext, hle⟩ := exists_of_mem_dropLast hpairs hr
  have hwait := (hbegun next hnext).wait_lt
  exact (hbegun r (List.dropLast_subset _ hr)).inside hstop (by omega)

theorem readings_of_ofBytes_renamedTrack :
    ∃ file, File.ofBytes renamedTrack = .ok file ∧
      ∀ t ∈ file.tracks, ∃ (stop : Nat) (readings : List Reading),
        t.events = readings.map (·.event) ∧
        ∀ r ∈ readings.dropLast, r.Inside renamedTrack stop := by
  obtain ⟨length, -, hchunks⟩ := readings_of_ofBytes ofBytes_renamedTrack
  refine ⟨_, ofBytes_renamedTrack, hchunks.forall fun start stop t ht => ?_⟩
  obtain ⟨readings, hevents, -, hinside⟩ := ht
  exact ⟨stop, readings, hevents, hinside⟩

/-- A file that was cut off in the middle of its only message, with the length of what is left. -/
def cutNote : List UInt8 :=
  ascii "MThd".toList ++ [0, 0, 0, 6, 0, 0, 0, 1, 0, 96] ++ ascii "MTrk".toList ++ [0, 0, 0, 3,
    0x00, 0x90, 0x3C]

theorem ofBytes_cutNote :
    File.ofBytes cutNote = .ok ⟨0, 1, 96, [⟨[⟨0, .noteOn 0 (some 0x3C) none⟩]⟩]⟩ := by
  rfl

/-- **A file that was cut off is read as if it were whole.** -/
theorem cutNote_is_read :
    ∃ file, File.ofBytes cutNote = .ok file ∧
      ∃ t ∈ file.tracks, ∃ e ∈ t.events, ¬e.body.Complete :=
  ⟨_, ofBytes_cutNote, _, List.mem_singleton_self _, _, List.mem_singleton_self _, nofun⟩

end LeadSheet.Midi
