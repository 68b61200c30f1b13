import LeadSheet.Proofs.Midi.Rounds

/-!
# Files that were read are consistent

Whatever bytes it is given, the reader ends, and a file that it returns is in order: the numbers of
its header are in range, it has as many tracks as it says, and in each of them time does not go
back, channels exist, nothing stands behind an end, and the name is the one that was given last
(`ofBytes_consistent`). None of this is checked when a track has been read. It follows from what one
round can do.

A file is read chunk by chunk, each where the length of the one before says (`EachChunk`), and what
is shown of one chunk is so shown of all tracks.
-/

namespace LeadSheet.Midi

/-! ## Chunks -/

/-- Tracks come from chunks that follow each other from an offset on, each of them inside the file.
Of the first and the last offset of each chunk and its track something holds. -/
inductive EachChunk (bytes : List UInt8) (P : Nat → Nat → FileTrack → Prop) :
    Nat → List FileTrack → Prop where
  | nil {offset : Nat} : EachChunk bytes P offset []
  | cons {offset length : Nat} {t : FileTrack} {rest : List FileTrack} :
      readId bytes offset = .ok (ascii "MTrk".toList) →
      readNumber 4 bytes (offset + 4) = .ok length → offset + 8 + length ≤ bytes.length →
      P (offset + 8) (offset + 8 + length) t → EachChunk bytes P (offset + 8 + length) rest →
      EachChunk bytes P offset (t :: rest)

section

variable {bytes : List UInt8} {P Q : Nat → Nat → FileTrack → Prop} {offset : Nat}
  {tracks : List FileTrack}

theorem EachChunk.imp (h : EachChunk bytes P offset tracks)
    (himp : ∀ start stop t, stop ≤ bytes.length → P start stop t → Q start stop t) :
    EachChunk bytes Q offset tracks := by
  induction h with
  | nil => exact .nil
  | cons hid hlength hle ht _ ih => exact .cons hid hlength hle (himp _ _ _ hle ht) ih

theorem EachChunk.forall {p : FileTrack → Prop} (h : EachChunk bytes P offset tracks)
    (himp : ∀ start stop t, P start stop t → p t) : ∀ t ∈ tracks, p t := by
  induction h with
  | nil => nofun
  | cons _ _ _ ht _ ih => exact List.forall_mem_cons.mpr ⟨himp _ _ _ ht, ih⟩

/-- What a check lets through. -/
theorem guard_eq_ok {ε β : Type} {c : Prop} [Decidable c] {e : ε} {f : Unit → Except ε β} {b : β} :
    (if c then throw e >>= f else f ()) = .ok b ↔ ¬c ∧ f () = .ok b := by
  by_cases hc : c
  · rw [if_pos hc]
    exact ⟨nofun, fun h => absurd hc h.1⟩
  · rw [if_neg hc]
    exact ⟨fun h => ⟨hc, h⟩, fun h => h.2⟩

/-- The events of a track are those that are read from its chunk. -/
def ReadFrom (bytes : List UInt8) (start stop : Nat) (t : FileTrack) : Prop :=
  readEvents stop (stop - start) (Cursor.at bytes start) 0 0 = .ok t.events

theorem eachChunk_of_readTracks : ∀ {count index offset : Nat} {tracks : List FileTrack},
    readTracks bytes count index offset = .ok tracks →
    tracks.length = count ∧ EachChunk bytes (ReadFrom bytes) offset tracks
  | 0, _, _, _, h => by
      cases h
      exact ⟨rfl, .nil⟩
  | count + 1, index, offset, tracks, h => by
      rw [readTracks] at h
      obtain ⟨id, hid, h⟩ := bind_eq_ok.mp h
      obtain ⟨htrack, h⟩ := guard_eq_ok.mp h
      obtain ⟨length, hlength, h⟩ := bind_eq_ok.mp h
      obtain ⟨hinside, h⟩ := guard_eq_ok.mp h
      obtain ⟨events, hevents, h⟩ := bind_eq_ok.mp h
      obtain ⟨others, hothers, h⟩ := bind_eq_ok.mp h
      cases h
      obtain ⟨hcount, hchunks⟩ := eachChunk_of_readTracks hothers
      rw [not_not.mp htrack] at hid
      refine ⟨congrArg (· + 1) hcount, .cons hid hlength (not_lt.mp hinside) ?_ hchunks⟩
      rw [ReadFrom, Nat.add_sub_cancel_left]
      exact hevents

/-- What it says of a file that it was read: its header is in range, and its tracks come from the
chunks behind the header. -/
theorem eachChunk_of_ofBytes {file : File} (h : File.ofBytes bytes = .ok file) :
    file.format ≤ 2 ∧ file.ppq < 0x8000 ∧ file.tracks.length = file.trackCount ∧
      ∃ length, readNumber 4 bytes 4 = .ok length ∧
        EachChunk bytes (ReadFrom bytes) (8 + length) file.tracks := by
  rw [File.ofBytes] at h
  obtain ⟨id, -, h⟩ := bind_eq_ok.mp h
  obtain ⟨-, h⟩ := guard_eq_ok.mp h
  obtain ⟨length, hlength, h⟩ := bind_eq_ok.mp h
  obtain ⟨-, h⟩ := guard_eq_ok.mp h
  obtain ⟨format, -, h⟩ := bind_eq_ok.mp h
  obtain ⟨hformat, h⟩ := guard_eq_ok.mp h
  obtain ⟨trackCount, -, h⟩ := bind_eq_ok.mp h
  obtain ⟨division, -, h⟩ := bind_eq_ok.mp h
  obtain ⟨hdivision, h⟩ := guard_eq_ok.mp h
  obtain ⟨tracks, htracks, h⟩ := bind_eq_ok.mp h
  cases h
  obtain ⟨hcount, hchunks⟩ := eachChunk_of_readTracks htracks
  exact ⟨not_lt.mp hformat, not_le.mp hdivision, hcount, length, hlength, hchunks⟩

end

/-! ## What is in order -/

/-- A track that is in order. Ticks are natural numbers, so that the first one is zero at least. -/
structure FileTrack.Consistent (t : FileTrack) : Prop where
  /-- Time does not go back. -/
  ticks : t.events.Pairwise fun a b => a.tick ≤ b.tick
  /-- Channels exist. -/
  channels : ∀ e ∈ t.events, ∀ channel ∈ e.body.channel?, channel < 16
  /-- What has something behind it does not end the track. -/
  ended : t.events.Pairwise fun a _ => a.body.metaKind? ≠ some endOfTrackMeta
  /-- The name is the text of the last event that names the track. -/
  named : ∀ name, t.name? = some name ↔ ∃ before tick data after,
    t.events = before ++ ⟨tick, .metadata (some trackNameMeta) data⟩ :: after ∧
    (∀ e ∈ after, e.body.metaKind? ≠ some trackNameMeta) ∧ name = latin data

/-- A file that is in order. -/
structure File.Consistent (file : File) : Prop where
  format_le : file.format ≤ 2
  ppq_lt : file.ppq < 32768
  length_tracks : file.tracks.length = file.trackCount
  tracks : ∀ t ∈ file.tracks, t.Consistent

theorem FileTrack.name?_eq_some_iff {t : FileTrack} {name : String} :
    t.name? = some name ↔ ∃ before tick data after,
      t.events = before ++ ⟨tick, .metadata (some trackNameMeta) data⟩ :: after ∧
      (∀ e ∈ after, e.body.metaKind? ≠ some trackNameMeta) ∧ name = latin data := by
  unfold FileTrack.name?
  rw [Option.bind_eq_some_iff]
  constructor
  · rintro ⟨e, he, hname⟩
    obtain ⟨hkind, after, before, hevents, hafter⟩ := List.find?_eq_some_iff_append.mp he
    obtain ⟨data, hbody, htext⟩ := EventBody.text?_of_metaKind? (of_decide_eq_true hkind)
    rw [htext] at hname
    refine ⟨before.reverse, e.tick, data, after.reverse, ?_, ?_, (Option.some.inj hname).symm⟩
    · rw [List.reverse_eq_iff.mp hevents, ← hbody]
      simp
    · intro other hother
      simpa using hafter other (List.mem_reverse.mp hother)
  · rintro ⟨before, tick, data, after, hevents, hafter, rfl⟩
    refine ⟨⟨tick, .metadata (some trackNameMeta) data⟩,
      List.find?_eq_some_iff_append.mpr ⟨?_, after.reverse, before.reverse, ?_, ?_⟩, rfl⟩
    · exact decide_eq_true rfl
    · rw [hevents]
      simp
    · intro other hother
      simpa using hafter other (List.mem_reverse.mp hother)

section

variable {bytes : List UInt8} {stop : Nat}

/-- What a round finds happens at the tick it comes to, on a channel that there is, and ends the
track if it is the last round. -/
theorem found_of_takes {s : ReaderState} {r : Round} (h : Takes bytes stop s r) :
    ∀ e ∈ r.found, e.tick = r.state.tick ∧ s.tick ≤ e.tick ∧
      (∀ channel ∈ e.body.channel?, channel < 16) ∧ r.last = e.body.endsTrack := by
  cases h with
  | nothing => nofun
  | @message wait _ _ _ _ event _ _ _ _ _ _ hevent =>
    have hreads := reads_readBody hevent
    rintro e he
    obtain ⟨body, hbody, rfl⟩ := Option.map_eq_some_iff.mp he
    exact ⟨rfl, Nat.le_add_right .., hreads.channel_lt body hbody, hreads.last_eq body hbody⟩

/-- Time does not go back from one round to the next. -/
theorem tick_le_of_takes {s : ReaderState} {r : Round} (h : Takes bytes stop s r)
    (hlast : r.last = false) : s.tick ≤ r.state.tick := by
  cases h with
  | nothing => cases hlast
  | message => exact Nat.le_add_right ..

/-- Events that may be read from a state: none is before its tick, they are in order, their channels
exist, and only the last one may end the track. -/
structure InOrder (s : ReaderState) (events : List FileEvent) : Prop where
  behind : ∀ e ∈ events, s.tick ≤ e.tick
  ticks : events.Pairwise fun a b => a.tick ≤ b.tick
  channels : ∀ e ∈ events, ∀ channel ∈ e.body.channel?, channel < 16
  ended : events.Pairwise fun a _ => a.body.metaKind? ≠ some endOfTrackMeta

theorem inOrder_of_last {s : ReaderState} {r : Round} (h : Takes bytes stop s r) :
    InOrder s r.found.toList := by
  have hfound := found_of_takes h
  cases hr : r.found with
  | none => exact ⟨nofun, .nil, nofun, .nil⟩
  | some e =>
    obtain ⟨-, hle, hchannel, -⟩ := hfound e hr
    exact ⟨by simpa using hle, List.pairwise_singleton .., by simpa using hchannel,
      List.pairwise_singleton ..⟩

theorem InOrder.next {s : ReaderState} {r : Round} {events : List FileEvent}
    (h : Takes bytes stop s r) (hlast : r.last = false) (hevents : InOrder r.state events) :
    InOrder s (r.found.toList ++ events) := by
  have htick := tick_le_of_takes h hlast
  have hfound := found_of_takes h
  cases hr : r.found with
  | none =>
    exact ⟨fun e he => htick.trans (hevents.behind e he), hevents.ticks, hevents.channels,
      hevents.ended⟩
  | some e =>
    obtain ⟨heq, hle, hchannel, hends⟩ := hfound e hr
    rw [Option.toList_some, List.singleton_append]
    refine ⟨?_, ?_, ?_, ?_⟩
    · exact List.forall_mem_cons.mpr ⟨hle, fun e he => htick.trans (hevents.behind e he)⟩
    · exact List.pairwise_cons.mpr ⟨fun other hother => heq ▸ hevents.behind other hother,
        hevents.ticks⟩
    · exact List.forall_mem_cons.mpr ⟨hchannel, hevents.channels⟩
    · -- the round was not the last one, so what it found does not end the track
      have hnot : e.body.metaKind? ≠ some endOfTrackMeta := by
        rw [hlast] at hends
        simpa [EventBody.endsTrack] using hends.symm
      exact List.pairwise_cons.mpr ⟨fun _ _ => hnot, hevents.ended⟩

theorem consistent_of_readFrom {start : Nat} {t : FileTrack} (h : ReadFrom bytes start stop t) :
    t.Consistent := by
  have horder : InOrder ⟨start, 0, 0, none⟩ t.events :=
    readEvents_induction (fun _ _ htakes _ => inOrder_of_last htakes)
      (fun _ _ _ htakes hlast => InOrder.next htakes hlast) (Nat.le_refl _) h
  exact ⟨horder.ticks, horder.channels, horder.ended, fun _ => FileTrack.name?_eq_some_iff⟩

end

/-- **The reader ends, and what it returns is consistent.** On whatever bytes, the loop that reads a
track is left after finitely many rounds wherever its chunk lies, with the events and the name that
the reader gives; so the reader as a whole ends, with an error or a file. The format of the file is
0, 1 or 2, its ticks a beat are below 32768, and it has as many tracks as it says. In each track
time does not go back, channels exist, an event that ends the track is the last one, and the name is
the text of the last event that names it. -/
theorem ofBytes_consistent (bytes : List UInt8) :
    (∀ start length, LoopEnds bytes (start + length) ⟨start, 0, 0, none⟩
      ((readEvents (start + length) length ⟨start, bytes.drop start⟩ 0 0).map
        fun events => (events, FileTrack.name? ⟨events⟩))) ∧
    ∀ file, File.ofBytes bytes = .ok file → file.Consistent := by
  constructor
  · intro start length
    have hends : LoopEnds bytes (start + length) ⟨start, 0, 0, none⟩
        ((readEvents (start + length) length (Cursor.at bytes start) 0 0).map
          fun events => (events, (FileTrack.name? ⟨events⟩).or none)) :=
      ends_readEvents (by dsimp only; omega)
    simp only [Option.or_none] at hends
    exact hends
  · intro file h
    obtain ⟨hformat, hppq, hcount, length, -, hchunks⟩ := eachChunk_of_ofBytes h
    exact ⟨hformat, hppq, hcount, hchunks.forall fun _ _ _ => consistent_of_readFrom⟩

/-- A file of one track that is named twice, with a message that shares its status, and with bytes
behind its end. -/
def renamedTrack : List UInt8 :=
  ascii "MThd".toList ++ [0, 0, 0, 6, 0, 1, 0, 1, 0, 96] ++ ascii "MTrk".toList ++ [0, 0, 0, 24,
    0x00, 0xFF, 0x03, 0x01, 0x41, 0x05, 0x90, 0x3C, 0x40, 0x81, 0x00, 0x3C, 0x00,
    0x00, 0xFF, 0x03, 0x01, 0x42, 0x00, 0xFF, 0x2F, 0x00, 0x00, 0x90]

theorem ofBytes_renamedTrack : File.ofBytes renamedTrack = .ok ⟨1, 1, 96,
    [⟨[⟨0, .metadata (some trackNameMeta) [0x41]⟩, ⟨5, .noteOn 0 (some 0x3C) (some 0x40)⟩,
      ⟨133, .noteOn 0 (some 0x3C) (some 0)⟩, ⟨133, .metadata (some trackNameMeta) [0x42]⟩,
      ⟨133, .metadata (some endOfTrackMeta) []⟩]⟩]⟩ := by
  rfl

theorem ofBytes_consistent_renamedTrack :
    ∃ file, File.ofBytes renamedTrack = .ok file ∧ file.Consistent ∧
      file.tracks.map FileTrack.name? = [some "B"] :=
  ⟨_, ofBytes_renamedTrack, (ofBytes_consistent renamedTrack).2 _ ofBytes_renamedTrack, by decide⟩

end LeadSheet.Midi
