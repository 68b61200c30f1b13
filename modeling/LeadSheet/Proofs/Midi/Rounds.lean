import LeadSheet.Proofs.Midi.Writing

/-!
# The reader of a track, round by round

The reader counts the events of a track, so that it is seen to end. What it stands for is a loop: a
wait is read, then a message, and so on until the chunk ends or a message ends the track. Nothing in
a round looks at the count. Here a round is a function of its own (`readRound`), the reader is shown
to be rounds in a row (`readEvents_succ`), and what one round can do is said once
(`takes_of_round`). Whatever holds of all events of a file is proved from that.

Each round that goes on takes at least one byte, since its wait does. So the loop is left after
finitely many rounds wherever it starts, and the count never stops it (`ends_readEvents`).
-/

namespace LeadSheet.Midi

/-! ## Places in a file -/

section

variable {bytes : List UInt8} {offset : Nat}

/-- The place at an offset of a file. -/
def Cursor.at (bytes : List UInt8) (offset : Nat) : Cursor := ⟨offset, bytes.drop offset⟩

@[simp] theorem Cursor.advance_at (count : Nat) :
    (Cursor.at bytes offset).advance count = Cursor.at bytes (offset + count) := by
  rw [Cursor.at, advance, List.drop_drop]
  rfl

@[simp] theorem Cursor.offset_at : (Cursor.at bytes offset).offset = offset := rfl

/-- The bytes that are left at a place, if any, start with the byte there. -/
theorem Cursor.head?_rest_at : (Cursor.at bytes offset).rest.head? = bytes[offset]? :=
  List.head?_drop

/-! ## Quantities that end -/

/-- From one offset up to another one a file holds a quantity to its end: bytes with the top bit,
and behind them one without. -/
def Quantity.Closed (bytes : List UInt8) (offset stop : Nat) : Prop :=
  ∃ groups last rest, bytes.drop offset = groups ++ last :: rest ∧
    stop = offset + groups.length + 1 ∧ (∀ b ∈ groups, ¬b < 0x80) ∧ last < 0x80

/-- A quantity that was read ends with a byte without the top bit, unless the bytes end first. -/
theorem Quantity.readFrom_ends {bytes : List UInt8} {value size : Nat} {read : Quantity.Read}
    (h : readFrom value size bytes = some read) :
    (∃ groups last rest, bytes = groups ++ last :: rest ∧ read.size = size + groups.length + 1 ∧
      (∀ b ∈ groups, ¬b < 0x80) ∧ last < 0x80) ∨ read.size = size + bytes.length := by
  induction bytes generalizing value size with
  | nil =>
    cases h
    exact .inr rfl
  | cons byte bytes ih =>
    rw [readFrom] at h
    by_cases hbyte : byte < 128
    · rw [if_pos hbyte] at h
      cases h
      exact .inl ⟨[], byte, bytes, rfl, rfl, List.forall_mem_nil _, hbyte⟩
    · rw [if_neg hbyte] at h
      split at h
      · cases h
      · rcases ih h with ⟨groups, last, rest, rfl, hsize, hgroups, hlast⟩ | hsize
        · refine .inl ⟨byte :: groups, last, rest, rfl, ?_, ?_, hlast⟩
          · rw [hsize, List.length_cons]
            omega
          · exact List.forall_mem_cons.mpr ⟨hbyte, hgroups⟩
        · right
          rw [hsize, List.length_cons]
          omega

theorem Cursor.quantity_eq_ok {c : Cursor} {read : Quantity.Read} :
    c.quantity = .ok read ↔ Quantity.read? c.rest = some read := by
  unfold quantity
  cases Quantity.read? c.rest <;> simp

/-- A quantity behind which the file goes on is there to its end. -/
theorem Cursor.closed_of_quantity {read : Quantity.Read}
    (h : (Cursor.at bytes offset).quantity = .ok read) (hlt : offset + read.size < bytes.length) :
    Quantity.Closed bytes offset (offset + read.size) := by
  rcases Quantity.readFrom_ends (Cursor.quantity_eq_ok.mp h) with
    ⟨groups, last, rest, hbytes, hsize, hgroups, hlast⟩ | hsize
  · exact ⟨groups, last, rest, hbytes, by omega, hgroups, hlast⟩
  · exfalso
    rw [Cursor.at, List.length_drop] at hsize
    omega

/-- Where the file goes on, a quantity takes a byte at least. -/
theorem Cursor.size_pos_of_quantity {read : Quantity.Read}
    (h : (Cursor.at bytes offset).quantity = .ok read) (hlt : offset < bytes.length) :
    0 < read.size := by
  rcases Quantity.readFrom_ends (Cursor.quantity_eq_ok.mp h) with
    ⟨groups, last, rest, -, hsize, -, -⟩ | hsize
  · omega
  · rw [Cursor.at, List.length_drop] at hsize
    omega

end

/-! ## What stands behind a status byte -/

/-- The fields of an event are read from an offset on, and what follows it starts at another one. A
byte beyond the end of the file is missing. -/
def EventBody.ReadAt (bytes : List UInt8) (data stop : Nat) : EventBody → Prop
  | noteOff _ first second | noteOn _ first second | controlChange _ first second =>
    first = bytes[data]? ∧ second = bytes[data + 1]? ∧ stop = data + 2
  | programChange _ program => program = bytes[data]? ∧ stop = data + 1
  | metadata kind content => kind = bytes[data]? ∧ ∃ length : Quantity.Read,
      (Cursor.at bytes (data + 1)).quantity = .ok length ∧
      content = (bytes.drop (data + 1 + length.size)).take length.value ∧
      stop = data + 1 + length.size + length.value

/-- What a message can be: one that is kept, with its fields, or one that is passed over. -/
structure EventRead.Reads (bytes : List UInt8) (data : Nat) (event : EventRead) : Prop where
  readAt : ∀ body ∈ event.body?, body.ReadAt bytes data (data + event.size)
  channel_lt : ∀ body ∈ event.body?, ∀ channel ∈ body.channel?, channel < 16
  last_eq : ∀ body ∈ event.body?, event.last = body.endsTrack
  passedOver : event.body? = none → event.last = false

section

variable {bytes : List UInt8} {data : Nat} {event : EventRead}

/-- A message that is kept. -/
theorem EventRead.Reads.kept {body : EventBody} {size : Nat} {last : Bool}
    (hread : body.ReadAt bytes data (data + size))
    (hchannel : ∀ channel ∈ body.channel?, channel < 16) (hlast : last = body.endsTrack) :
    Reads bytes data ⟨some body, size, last⟩ where
  readAt := by
    rintro _ ⟨⟩
    exact hread
  channel_lt := by
    rintro _ ⟨⟩
    exact hchannel
  last_eq := by
    rintro _ ⟨⟩
    exact hlast
  passedOver := nofun

/-- A message that is passed over. -/
theorem EventRead.Reads.skipped (size : Nat) : Reads bytes data ⟨none, size, false⟩ :=
  ⟨nofun, nofun, nofun, fun _ => rfl⟩

theorem reads_readMeta (h : readMeta (Cursor.at bytes data) = .ok event) :
    event.Reads bytes data := by
  unfold readMeta at h
  rw [Cursor.advance_at] at h
  obtain ⟨length, hlength, rfl⟩ := map_eq_ok.mp h
  refine .kept ⟨Cursor.head?_rest_at, length, hlength, ?_, ?_⟩ nofun rfl
  · rw [Cursor.advance_at, ← Nat.add_assoc]
    rfl
  · omega

theorem reads_readExclusive (h : readExclusive (Cursor.at bytes data) = .ok event) :
    event.Reads bytes data := by
  obtain ⟨length, -, rfl⟩ := map_eq_ok.mp h
  exact .skipped _

theorem reads_readChannelMessage (status : Nat) :
    (readChannelMessage status (Cursor.at bytes data)).Reads bytes data := by
  have hfirst : (Cursor.at bytes data).rest[0]? = bytes[data]? := List.getElem?_drop ..
  have hsecond : (Cursor.at bytes data).rest[1]? = bytes[data + 1]? := List.getElem?_drop ..
  have hchannel : ∀ channel ∈ some (status % 16), channel < 16 := by
    rintro _ ⟨⟩
    exact Nat.mod_lt status (by decide)
  unfold readChannelMessage
  rw [hfirst, hsecond]
  dsimp only
  -- one case for each kind of message, in the order of the reader
  split
  · exact .kept ⟨rfl, rfl, rfl⟩ hchannel rfl
  · exact .kept ⟨rfl, rfl, rfl⟩ hchannel rfl
  · exact .kept ⟨rfl, rfl, rfl⟩ hchannel rfl
  · exact .kept ⟨rfl, rfl⟩ hchannel rfl
  · exact .skipped 1
  · exact .skipped 2

/-- Whatever the status, what stands behind it is read as it stands there. -/
theorem reads_readBody {status : Nat} (h : readBody status (Cursor.at bytes data) = .ok event) :
    event.Reads bytes data := by
  unfold readBody at h
  split at h
  · exact reads_readMeta h
  · split at h
    · exact reads_readExclusive h
    · cases h
      exact reads_readChannelMessage status

end

/-! ## One round -/

/-- How far the reader of a track is. -/
structure ReaderState where
  offset : Nat
  tick : Nat
  /-- The status that messages may share; zero if there is none. -/
  running : Nat
  /-- The name that the track was given last. -/
  name : Option String
  deriving DecidableEq, Repr

/-- What a round gives. -/
structure Round where
  found : Option FileEvent
  state : ReaderState
  /-- Whether it is the last round. -/
  last : Bool
  deriving DecidableEq, Repr

/-- The name of a track behind a message: an event that names the track gives it a new one. -/
def nameBehind (name : Option String) : Option EventBody → Option String
  | some body => if body.metaKind? = some trackNameMeta then body.text? else name
  | none => name

/-- Reads the message that starts where the reader is. -/
def readMessage (bytes : List UInt8) (s : ReaderState) (byte : UInt8) : Except ReadError Round :=
  readStatus s.running (Cursor.at bytes s.offset) byte >>= fun (status, running, c) =>
    readBody status c >>= fun event =>
      .ok
        { found := event.body?.map (FileEvent.mk s.tick)
          state := ⟨c.offset + event.size, s.tick, running, nameBehind s.name event.body?⟩
          last := event.last }

/-- One round of the loop that reads a track: a wait and the message behind it. The track ends where
its chunk ends, before or behind a wait, or with its last message. -/
def readRound (bytes : List UInt8) (stop : Nat) (s : ReaderState) : Except ReadError Round :=
  if stop ≤ s.offset then .ok ⟨none, s, true⟩
  else
    (Cursor.at bytes s.offset).quantity >>= fun wait =>
      let s := { s with offset := s.offset + wait.size, tick := s.tick + wait.value }
      match bytes[s.offset]? with
      | none => .ok ⟨none, s, true⟩
      | some byte => if stop ≤ s.offset then .ok ⟨none, s, true⟩ else readMessage bytes s byte

/-- What one round can do: find that the track is over, or take a wait and a message that start in
the chunk. -/
inductive Takes (bytes : List UInt8) (stop : Nat) (s : ReaderState) : Round → Prop where
  | nothing (offset tick : Nat) :
      Takes bytes stop s ⟨none, { s with offset := offset, tick := tick }, true⟩
  | message {wait : Quantity.Read} {byte : UInt8} {status running data : Nat} {event : EventRead} :
      s.offset < stop → (Cursor.at bytes s.offset).quantity = .ok wait →
      s.offset + wait.size < stop → bytes[s.offset + wait.size]? = some byte →
      (byte < 0x80 ∧ data = s.offset + wait.size ∨ ¬byte < 0x80 ∧ data = s.offset + wait.size + 1) →
      readStatus s.running (Cursor.at bytes (s.offset + wait.size)) byte
        = .ok (status, running, Cursor.at bytes data) →
      readBody status (Cursor.at bytes data) = .ok event →
      Takes bytes stop s
        { found := event.body?.map (FileEvent.mk (s.tick + wait.value))
          state := ⟨data + event.size, s.tick + wait.value, running, nameBehind s.name event.body?⟩
          last := event.last }

section

variable {bytes : List UInt8} {stop : Nat}

/-- A status byte is taken, a shared status takes none. -/
theorem cursor_of_readStatus {running offset status running' : Nat} {byte : UInt8} {c : Cursor}
    (h : readStatus running (Cursor.at bytes offset) byte = .ok (status, running', c)) :
    ∃ data, c = Cursor.at bytes data ∧
      (byte < 0x80 ∧ data = offset ∨ ¬byte < 0x80 ∧ data = offset + 1) := by
  unfold readStatus at h
  by_cases hbyte : byte < 0x80
  · rw [if_pos hbyte] at h
    split at h
    · cases h
    · cases h
      exact ⟨offset, rfl, .inl ⟨hbyte, rfl⟩⟩
  · rw [if_neg hbyte, Cursor.advance_at] at h
    cases h
    exact ⟨offset + 1, rfl, .inr ⟨hbyte, rfl⟩⟩

/-- **What one round does.** -/
theorem takes_of_round {s : ReaderState} {r : Round} (h : readRound bytes stop s = .ok r) :
    Takes bytes stop s r := by
  unfold readRound at h
  by_cases hstop : stop ≤ s.offset
  · rw [if_pos hstop] at h
    cases h
    exact .nothing s.offset s.tick
  · rw [if_neg hstop] at h
    obtain ⟨wait, hwait, h⟩ := bind_eq_ok.mp h
    dsimp only at h
    split at h
    · cases h
      exact .nothing _ _
    · next byte hbyte =>
      split at h
      · cases h
        exact .nothing _ _
      · next hmessage =>
        obtain ⟨⟨status, running, c⟩, hstatus, h⟩ := bind_eq_ok.mp h
        obtain ⟨event, hevent, h⟩ := bind_eq_ok.mp h
        obtain ⟨data, rfl, hdata⟩ := cursor_of_readStatus hstatus
        cases h
        exact .message (not_le.mp hstop) hwait (not_le.mp hmessage) hbyte hdata hstatus hevent

/-- **The reader goes round by round.** -/
theorem readEvents_succ (count : Nat) (s : ReaderState) :
    readEvents stop (count + 1) (Cursor.at bytes s.offset) s.tick s.running
      = readRound bytes stop s >>= fun r =>
          if r.last then .ok r.found.toList
          else (readEvents stop count (Cursor.at bytes r.state.offset) r.state.tick
            r.state.running).map (r.found.toList ++ ·) := by
  rw [readEvents, readRound, Cursor.offset_at]
  split
  · rfl
  · cases hwait : (Cursor.at bytes s.offset).quantity with
    | error e => rfl
    | ok wait =>
      have hhead : (Cursor.at bytes (s.offset + wait.size)).rest.head?
          = bytes[s.offset + wait.size]? := Cursor.head?_rest_at
      simp only [bind, Except.bind, Cursor.advance_at, Cursor.offset_at]
      cases hrest : (Cursor.at bytes (s.offset + wait.size)).rest with
      | nil =>
        rw [hrest, List.head?_nil] at hhead
        rw [← hhead]
        rfl
      | cons byte rest =>
        rw [hrest, List.head?_cons] at hhead
        rw [← hhead]
        dsimp only
        split
        · rfl
        · simp only [readMessage, bind, Except.bind]
          cases hstatus : readStatus s.running (Cursor.at bytes (s.offset + wait.size)) byte with
          | error e => rfl
          | ok read =>
            obtain ⟨status, running, c⟩ := read
            obtain ⟨data, rfl, -⟩ := cursor_of_readStatus hstatus
            dsimp only
            cases readBody status (Cursor.at bytes data) with
            | error e => rfl
            | ok event => simp only [Cursor.advance_at, Cursor.offset_at]

/-! ## Rounds end -/

/-- A round that goes on has taken a byte at least. -/
theorem offset_lt_of_round {s : ReaderState} {r : Round} (h : readRound bytes stop s = .ok r)
    (hlast : r.last = false) : s.offset < stop ∧ s.offset < r.state.offset := by
  cases takes_of_round h with
  | nothing => cases hlast
  | message hstart hwait _ hbyte hdata =>
    obtain ⟨hlt, -⟩ := List.getElem?_eq_some_iff.mp hbyte
    have hpos := Cursor.size_pos_of_quantity hwait (by omega)
    dsimp only
    omega

/-- The loop that reads a track, started in a state, is left after finitely many rounds, with an
error or with the events it found and the name it carries. -/
inductive LoopEnds (bytes : List UInt8) (stop : Nat) :
    ReaderState → Except ReadError (List FileEvent × Option String) → Prop where
  | fails {s : ReaderState} {e : ReadError} : readRound bytes stop s = .error e →
      LoopEnds bytes stop s (.error e)
  | stops {s : ReaderState} {r : Round} : readRound bytes stop s = .ok r → r.last = true →
      LoopEnds bytes stop s (.ok (r.found.toList, r.state.name))
  | goesOn {s : ReaderState} {r : Round}
      {result : Except ReadError (List FileEvent × Option String)} :
      readRound bytes stop s = .ok r → r.last = false → LoopEnds bytes stop r.state result →
      LoopEnds bytes stop s (result.map fun (events, name) => (r.found.toList ++ events, name))

/-- An event that names a track has a text. -/
theorem EventBody.text?_of_metaKind? {body : EventBody} (h : body.metaKind? = some trackNameMeta) :
    ∃ data, body = .metadata (some trackNameMeta) data ∧ body.text? = some (latin data) := by
  cases body with
  | metadata kind data =>
    cases (h : kind = some trackNameMeta)
    exact ⟨data, rfl, rfl⟩
  | _ => cases h

/-- The name of a track that starts with a message. -/
theorem name?_append (name : Option String) (found : Option FileEvent) (events : List FileEvent) :
    (FileTrack.name? ⟨found.toList ++ events⟩).or name
      = (FileTrack.name? ⟨events⟩).or (nameBehind name (found.map (·.body))) := by
  cases found with
  | none => rfl
  | some e =>
    unfold FileTrack.name? nameBehind
    rw [Option.toList_some, List.singleton_append, List.reverse_cons, List.find?_append]
    -- what names the track behind the message counts, else the message does
    cases hlater : events.reverse.find? fun e => e.body.metaKind? = some trackNameMeta with
    | some later =>
      obtain ⟨data, -, htext⟩ := EventBody.text?_of_metaKind?
        (by simpa using List.find?_some hlater)
      rw [Option.some_or, Option.bind_some, htext, Option.some_or, Option.some_or]
    | none =>
      by_cases hkind : e.body.metaKind? = some trackNameMeta
      · obtain ⟨data, -, htext⟩ := EventBody.text?_of_metaKind? hkind
        simp [hkind, htext]
      · simp [hkind]

/-- The name that a round leaves is that of the message it found. -/
theorem name_of_takes {s : ReaderState} {r : Round} (h : Takes bytes stop s r) :
    r.state.name = nameBehind s.name (r.found.map (·.body)) := by
  cases h with
  | nothing => rfl
  | @message _ _ _ _ _ event =>
    dsimp only
    cases event.body? <;> rfl

/-- **The loop ends**, with what the reader gives if it counts at least the bytes of the chunk that
are left, and with the name of the events it found. -/
theorem ends_readEvents : ∀ {count : Nat} {s : ReaderState}, stop - s.offset ≤ count →
    LoopEnds bytes stop s ((readEvents stop count (Cursor.at bytes s.offset) s.tick s.running).map
      fun events => (events, (FileTrack.name? ⟨events⟩).or s.name))
  | 0, s, hcount => by
      have hround : readRound bytes stop s = .ok ⟨none, s, true⟩ := by
        rw [readRound, if_pos (by omega)]
      exact .stops hround rfl
  | count + 1, s, hcount => by
      rw [readEvents_succ]
      cases hround : readRound bytes stop s with
      | error e => exact .fails hround
      | ok r =>
        have hname := name_of_takes (takes_of_round hround)
        simp only [bind, Except.bind]
        by_cases hlast : r.last = true
        · have hfound := name?_append s.name r.found []
          rw [List.append_nil, ← hname] at hfound
          rw [if_pos hlast, Except.map, hfound]
          exact .stops hround hlast
        · rw [Bool.not_eq_true] at hlast
          obtain ⟨hstart, hmore⟩ := offset_lt_of_round hround hlast
          have hrest := LoopEnds.goesOn hround hlast
            (ends_readEvents (by omega : stop - r.state.offset ≤ count))
          rw [hlast, if_neg Bool.false_ne_true]
          generalize readEvents stop count (Cursor.at bytes r.state.offset) r.state.tick
            r.state.running = later at hrest ⊢
          cases later with
          | error e => exact hrest
          | ok events =>
            have hevents := name?_append s.name r.found events
            rw [← hname] at hevents
            simp only [Except.map, hevents] at hrest ⊢
            exact hrest

/-- **What rounds keep holds of a track.** Where a property of the events behind a state holds of
those of a last round, and a round before others keeps it, it holds of all events that are read. -/
theorem readEvents_induction {P : ReaderState → List FileEvent → Prop}
    (last : ∀ s r, Takes bytes stop s r → r.last = true → P s r.found.toList)
    (next : ∀ s r events, Takes bytes stop s r → r.last = false → P r.state events →
      P s (r.found.toList ++ events)) :
    ∀ {count : Nat} {s : ReaderState} {events : List FileEvent}, stop - s.offset ≤ count →
      readEvents stop count (Cursor.at bytes s.offset) s.tick s.running = .ok events → P s events
  | 0, s, events, _, h => by
      cases h
      exact last s ⟨none, s, true⟩ (.nothing s.offset s.tick) rfl
  | count + 1, s, events, hcount, h => by
      rw [readEvents_succ] at h
      obtain ⟨r, hround, h⟩ := bind_eq_ok.mp h
      by_cases hlast : r.last = true
      · rw [if_pos hlast] at h
        cases h
        exact last s r (takes_of_round hround) hlast
      · rw [Bool.not_eq_true] at hlast
        rw [hlast, if_neg Bool.false_ne_true] at h
        obtain ⟨later, hlater, rfl⟩ := map_eq_ok.mp h
        obtain ⟨hstart, hmore⟩ := offset_lt_of_round hround hlast
        exact next s r later (takes_of_round hround) hlast
          (readEvents_induction last next (by omega) hlater)

end

end LeadSheet.Midi
