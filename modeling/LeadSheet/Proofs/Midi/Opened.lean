import LeadSheet.Proofs.Midi.RoundTrip

/-!
# Files that were read

That an exported file can be read is a statement about the score (`Proofs.Midi.RoundTrip`). Here it
is given that a file was written and read, and the question is what that says: the first track is
that of the tempo (`head?_of_readBack`), each other one was read from the chunk of a sound track, in
order (`tail_of_readBack`), and the names that were written are short enough for a quantity
(`CueTrack.ReadAs.name_lt`).

The header holds the number of tracks in two bytes. Of more tracks than these can count the reader
sees as many as the header says.
-/

namespace LeadSheet.Midi

variable {α : Type} [Scalar α]

/-! ## What was written -/

/-- A file that was written is a header and the chunks of its tracks, that of the tempo first. -/
theorem bytes_of_exportScore {v : Vocabulary α} {options : ExportOptions α} {s : Score α}
    {out : Exported α} (h : exportScore v options s = .ok out) :
    ∃ chunks, List.Forall₂ (fun track bytes => trackChunk options.trackNames track = .ok bytes)
        (tempoTrack s :: (soundTracks v options s).map Prod.fst) chunks ∧
      out.bytes = headerChunk ((soundTracks v options s).length + 1) options.ppq
        ++ chunks.flatten := by
  unfold exportScore at h
  split at h
  · cases h
  · obtain ⟨bytes, hbytes, rfl⟩ := map_eq_ok.mp h
    obtain ⟨chunks, hchunks, rfl⟩ := map_eq_ok.mp hbytes
    exact ⟨chunks, mapM_eq_ok.mp hchunks, by simp⟩

/-- The chunk of a track holds its name, its cues and its end. -/
theorem content_of_trackChunk {names : Bool} {track : CueTrack α} {bytes : List UInt8}
    (h : trackChunk names track = .ok bytes) :
    ∃ cues, deltaBytes 0 (Sorting.sort Cue.goesBefore track.cues) = .ok cues ∧
      bytes = chunk "MTrk" ((if names && track.name ≠ "" then
        Quantity.encode 0 ++ trackName track.name.toList else [])
          ++ cues ++ Quantity.encode 0 ++ endOfTrack) := by
  obtain ⟨cues, hcues, rfl⟩ := map_eq_ok.mp h
  exact ⟨cues, hcues, rfl⟩

/-- The first of some cues was written behind its wait, and the others behind theirs. -/
theorem deltaBytes_cons_eq_ok {previous : α} {cue : Cue α} {cues : List (Cue α)}
    {bytes : List UInt8} : deltaBytes previous (cue :: cues) = .ok bytes ↔
      ∃ time rest, Quantity.encode? (Scalar.max 0 (cue.tick - previous)) = some time ∧
        deltaBytes cue.tick cues = .ok rest ∧ time ++ cue.bytes ++ rest = bytes := by
  rw [deltaBytes]
  cases Quantity.encode? (Scalar.max 0 (cue.tick - previous)) with
  | none => simp
  | some time => simp [map_eq_ok]

theorem chunk_length (id : String) (hid : id.toList.length = 4) (content : List UInt8) :
    (chunk id content).length = content.length + 8 := by
  rw [chunk, List.length_append, List.length_append, ascii_length, hid, bigEndian_length]
  omega

theorem chunk_inj {id : String} {content content' : List UInt8}
    (h : chunk id content = chunk id content') : content = content' := by
  unfold chunk at h
  rw [List.append_assoc, List.append_assoc, List.append_cancel_left_eq] at h
  exact List.append_inj_right h (by rw [bigEndian_length, bigEndian_length])

/-! ## What was read -/

/-- The file that an exported score is read back as, if it is written and can be read. -/
def readBack? (v : Vocabulary α) (options : ExportOptions α) (s : Score α) : Option File :=
  (exportScore v options s).toOption.bind fun out => (File.ofBytes out.bytes).toOption

theorem readBack?_eq_some {v : Vocabulary α} {options : ExportOptions α} {s : Score α}
    {file : File} : readBack? v options s = some file ↔
      ∃ out, exportScore v options s = .ok out ∧ File.ofBytes out.bytes = .ok file := by
  simp only [readBack?, Option.bind_eq_some_iff, toOption_eq_some]

/-- A track of a file was read from the chunk of a track of cues. -/
def CueTrack.ReadAs (names : Bool) (track : CueTrack α) (t : FileTrack) : Prop :=
  ∃ content offset rest, trackChunk names track = .ok (chunk "MTrk" content) ∧
    content.length < 2 ^ 32 ∧
    readEvents (offset + content.length) content.length ⟨offset, content ++ rest⟩ 0 0 = .ok t.events

theorem CueTrack.ReadAs.exists_chunk {names : Bool} {track : CueTrack α} {t : FileTrack}
    (h : track.ReadAs names t) : ∃ bytes, trackChunk names track = .ok bytes :=
  have ⟨_, _, _, hchunk, _⟩ := h
  ⟨_, hchunk⟩

/-- What was read is what was printed, if that can be read. -/
theorem CueTrack.ReadAs.events_eq {names : Bool} {track : CueTrack α} {t : FileTrack}
    (h : track.ReadAs names t) {events : List FileEvent}
    (hchunk : trackChunk names track = .ok (FileTrack.bytes ⟨events⟩))
    (hreadable : Readable 0 events) : t.events = events := by
  obtain ⟨content, offset, rest, hcontent, -, hread⟩ := h
  rw [hchunk] at hcontent
  obtain rfl := chunk_inj (Except.ok.inj hcontent)
  rw [readEvents_eventBytes hreadable hreadable.length_le rfl] at hread
  exact (Except.ok.inj hread).symm

/-- A name that is too long for a quantity stops the reader. -/
theorem readEvents_longName {name : List Char} (hlow : 2 ^ 28 ≤ name.length)
    (hhigh : name.length < 2 ^ 32) {stop offset : Nat} (hstop : offset + 1 < stop) (count : Nat)
    (rest : List UInt8) :
    readEvents stop (count + 1) ⟨offset, Quantity.encode 0 ++ (trackName name ++ rest)⟩ 0 0
      = .error (.quantityTooLong (offset + 3)) := by
  have hzero : Quantity.encode 0 = [0] := by decide
  have hquantity : Cursor.quantity ⟨offset, Quantity.encode 0 ++ (trackName name ++ rest)⟩
      = .ok ⟨0, 1⟩ := by
    rw [Cursor.quantity, Quantity.read?_encode (by decide), hzero]
    rfl
  have hlong := Quantity.read?_encode_eq_none (n := (ascii name).length)
    (by rwa [ascii_length]) (by rwa [ascii_length]) (ascii name ++ rest)
  have hmeta : readMeta ⟨offset + 2, trackNameMeta :: (Quantity.encode (ascii name).length
      ++ (ascii name ++ rest))⟩ = .error (.quantityTooLong (offset + 3)) := by
    rw [readMeta, Cursor.advance, List.drop_one, List.tail_cons, Cursor.quantity, hlong]
    rfl
  have hbyte : ¬(0xFF : UInt8) < 0x80 := by decide
  rw [readEvents, if_neg (by dsimp only; omega), hquantity, hzero]
  simp only [Cursor.advance, trackName, List.cons_append, List.nil_append, List.append_assoc,
    List.drop_succ_cons, List.drop_zero, readStatus, if_neg hbyte]
  rw [if_neg (by omega), readBody, if_pos (by decide), Nat.add_assoc, hmeta]

/-- **A name that was written and read is short enough.** -/
theorem CueTrack.ReadAs.name_lt {names : Bool} {track : CueTrack α} {t : FileTrack}
    (h : track.ReadAs names t) (hnamed : names && track.name ≠ "") :
    track.name.length < 2 ^ 28 := by
  obtain ⟨content, offset, rest, hcontent, hlength, hread⟩ := h
  obtain ⟨cues, -, hchunk⟩ := content_of_trackChunk hcontent
  obtain rfl := chunk_inj hchunk
  rw [if_pos hnamed] at hlength hread
  by_contra hlong
  rw [← String.length_toList] at hlong
  simp only [trackName, List.length_append, List.length_cons, List.length_nil, ascii_length]
    at hlength
  have hpos := Quantity.encode_length_pos 0
  rw [List.append_assoc, List.append_assoc, List.append_assoc, List.append_assoc,
    List.append_assoc] at hread
  generalize hcount : (Quantity.encode 0 ++ (trackName track.name.toList
    ++ (cues ++ (Quantity.encode 0 ++ endOfTrack)))).length = count at hread
  simp only [trackName, List.length_append, List.length_cons, List.length_nil] at hcount
  obtain ⟨count, rfl⟩ : ∃ k, count = k + 1 := ⟨count - 1, by omega⟩
  rw [readEvents_longName (not_lt.mp hlong) (by omega) (by omega)] at hread
  cases hread

/-! ## Tracks and files -/

/-- Whether the bytes of a track can be counted, if it is written. -/
def CueTrack.Countable (names : Bool) (track : CueTrack α) : Prop :=
  ∀ bytes, trackChunk names track = .ok bytes → bytes.length < 2 ^ 32 + 8

/-- The first track that is read was read from the first chunk. -/
theorem readAs_of_readTracks_succ {names : Bool} {track : CueTrack α}
    {bytes chunk rest : List UInt8} {count index offset : Nat} {read : List FileTrack}
    (hchunk : trackChunk names track = .ok chunk) (hcountable : track.Countable names)
    (hdrop : bytes.drop offset = chunk ++ rest)
    (hread : readTracks bytes (count + 1) index offset = .ok read) :
    ∃ t others next, read = t :: others ∧ track.ReadAs names t ∧ bytes.drop next = rest ∧
      readTracks bytes count (index + 1) next = .ok others := by
  obtain ⟨cues, -, rfl⟩ := content_of_trackChunk hchunk
  generalize (if names && track.name ≠ "" then
    Quantity.encode 0 ++ trackName track.name.toList else [])
      ++ cues ++ Quantity.encode 0 ++ endOfTrack = content at hchunk hdrop
  have hlt : content.length < 2 ^ 32 := by
    have := hcountable _ hchunk
    rw [chunk_length _ (by decide)] at this
    omega
  obtain ⟨hothers, hstep⟩ := readTracks_chunk hdrop hlt count index
  rw [hstep] at hread
  obtain ⟨events, hevents, hread⟩ := bind_eq_ok.mp hread
  obtain ⟨others, hmore, hread⟩ := bind_eq_ok.mp hread
  cases hread
  exact ⟨⟨events⟩, others, _, rfl, ⟨content, _, _, hchunk, hlt, hevents⟩, hothers, hmore⟩

/-- Tracks that were read from chunks were read from the first of them, one by one. -/
theorem readAs_of_readTracks {names : Bool} {bytes : List UInt8} :
    ∀ {tracks : List (CueTrack α)} {chunks : List (List UInt8)} {count index offset : Nat}
      {read : List FileTrack},
      List.Forall₂ (fun track chunk => trackChunk names track = .ok chunk) tracks chunks →
      (∀ track ∈ tracks, track.Countable names) → count ≤ tracks.length →
      bytes.drop offset = chunks.flatten → readTracks bytes count index offset = .ok read →
      List.Forall₂ (CueTrack.ReadAs names) (tracks.take count) read
  | _, _, 0, _, _, _, _, _, _, _, hread => by
      cases hread
      exact .nil
  | track :: tracks, bytes' :: chunks, count + 1, index, offset, read, .cons hchunk hchunks,
      hcountable, hcount, hdrop, hread => by
      obtain ⟨t, others, next, rfl, ht, hnext, hothers⟩ := readAs_of_readTracks_succ hchunk
        (hcountable track List.mem_cons_self) hdrop hread
      rw [List.take_succ_cons]
      exact .cons ht (readAs_of_readTracks hchunks
        (fun t ht => hcountable t (List.mem_cons_of_mem _ ht)) (Nat.le_of_succ_le_succ hcount)
        hnext hothers)

section

variable {v : Vocabulary α} {options : ExportOptions α} {s : Score α} {file : File}

/-- The tracks of a file were read from its chunks, as many as its header counts. -/
theorem readTracks_of_readBack (hread : readBack? v options s = some file) :
    ∃ bytes chunks,
      List.Forall₂ (fun track chunk => trackChunk options.trackNames track = .ok chunk)
        (tempoTrack s :: (soundTracks v options s).map Prod.fst) chunks ∧
      bytes.drop 14 = chunks.flatten ∧
      readTracks bytes (((soundTracks v options s).length + 1) % 2 ^ 16) 0 14
        = .ok file.tracks := by
  obtain ⟨out, hexport, hread⟩ := readBack?_eq_some.mp hread
  obtain ⟨chunks, hchunks, hbytes⟩ := bytes_of_exportScore hexport
  obtain ⟨hdrop, hfile⟩ := ofBytes_header (by decide : 1 ≤ 2) _ _ hbytes
  refine ⟨out.bytes, chunks, hchunks, hdrop, ?_⟩
  rw [hfile] at hread
  split at hread
  · cases hread
  have hcount : ((((soundTracks v options s).length + 1 : Nat) : Int) % 256 ^ 2).toNat
      = ((soundTracks v options s).length + 1) % 2 ^ 16 := by
    omega
  rw [hcount] at hread
  obtain ⟨tracks, htracks, rfl⟩ := map_eq_ok.mp hread
  exact htracks

theorem countable_tempoTrack [ExactIntegers α] (names : Bool) (s : Score α) :
    (tempoTrack s).Countable names := by
  intro bytes hbytes
  rw [trackChunk_tempoTrack] at hbytes
  cases hbytes
  rw [FileTrack.bytes, chunk_length _ (by decide)]
  exact Nat.add_lt_add_right (tempoEvents_fits s.tempo).length_lt 8

/-- **The first track of a file that was read is that of the tempo**, whatever comes behind it. -/
theorem head?_of_readBack [ExactIntegers α] (hread : readBack? v options s = some file)
    (htracks : file.tracks ≠ []) : file.tracks.head? = some ⟨tempoEvents s.tempo⟩ := by
  obtain ⟨bytes, chunks, hchunks, hdrop, hread⟩ := readTracks_of_readBack hread
  obtain ⟨chunk, chunks, hchunk, -, rfl⟩ := List.forall₂_cons_left_iff.mp hchunks
  generalize ((soundTracks v options s).length + 1) % 2 ^ 16 = count at hread
  cases count with
  | zero => exact absurd (Except.ok.inj hread).symm htracks
  | succ count =>
    obtain ⟨t, others, -, heq, ht, -⟩ :=
      readAs_of_readTracks_succ hchunk (countable_tempoTrack _ s) hdrop hread
    have hevents := ht.events_eq (trackChunk_tempoTrack _ s) (tempoEvents_fits s.tempo).readable
    rw [heq, List.head?_cons, ← hevents]

/-- **The tracks behind the first one** are the sound tracks that were written, as many as two bytes
can count. -/
theorem tail_of_readBack [ExactIntegers α] (hread : readBack? v options s = some file)
    (hcountable : ∀ sound ∈ soundTracks v options s, sound.1.Countable options.trackNames) :
    List.Forall₂ (fun sound t => sound.1.ReadAs options.trackNames t)
      ((soundTracks v options s).take (((soundTracks v options s).length + 1) % 2 ^ 16 - 1))
      file.tracks.tail := by
  obtain ⟨bytes, chunks, hchunks, hdrop, hread⟩ := readTracks_of_readBack hread
  have hcount : ((soundTracks v options s).length + 1) % 2 ^ 16
      ≤ (soundTracks v options s).length + 1 := Nat.mod_le ..
  generalize ((soundTracks v options s).length + 1) % 2 ^ 16 = count at hread hcount ⊢
  have htracks := readAs_of_readTracks hchunks (by
    rw [List.forall_mem_cons, List.forall_mem_map]
    exact ⟨countable_tempoTrack _ s, hcountable⟩)
    (by rwa [List.length_cons, List.length_map]) hdrop hread
  cases count with
  | zero =>
    rw [← Except.ok.inj hread]
    exact .nil
  | succ count =>
    rw [List.take_succ_cons, ← List.map_take] at htracks
    obtain ⟨t, others, -, hothers, heq⟩ := List.forall₂_cons_left_iff.mp htracks
    rw [heq, List.tail_cons, Nat.add_sub_cancel]
    exact List.forall₂_map_left_iff.mp hothers

end

end LeadSheet.Midi
