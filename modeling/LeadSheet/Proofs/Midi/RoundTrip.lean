import LeadSheet.Proofs.Midi.Writing
import LeadSheet.Proofs.Number.Doubles

/-!
# Exported scores are read back

A score whose ticks are natural numbers, with no wait of `2 ^ 28` ticks or more, is written to a
file that the reader takes, and what it reads is what the exporter built: the tempo first, then one
track for each sound track, with its name, its messages in stable order of tick and rank, and one
end (`ofBytes_exportScore`).

Waits are counted from the start of a track. A track with drums alone may start late, and the wait
before its first hit is written like every other one (`late_start_unreadable`).
-/

namespace LeadSheet.Midi

variable {α : Type} [Scalar α]

/-! ## What can be written, and what is read of it -/

/-- A track that the reader can take: its ticks are natural numbers, its waits and its name are
short enough for a quantity, and its bytes can be counted. -/
structure CueTrack.Writable (names : Bool) (track : CueTrack α) : Prop where
  ticks : ∀ cue ∈ track.cues, ∃ n : Nat, Scalar.integer? cue.tick = some n
  waits : (0 :: (Sorting.sort Cue.goesBefore track.cues).map Cue.at).IsChain
    fun m n => n < m + 2 ^ 28
  name_lt : track.name.length < 2 ^ 28
  length_lt : ∀ bytes, trackChunk names track = .ok bytes → bytes.length < 2 ^ 32 + 8

/-- A number is a natural one if it is an integer that is not negative. -/
theorem exists_integer?_iff {x : α} :
    (∃ n : Nat, Scalar.integer? x = some n) ↔ 0 ≤ (Scalar.integer? x).getD (-1) := by
  cases Scalar.integer? x with
  | none => simp
  | some n =>
    rw [Option.getD_some]
    constructor
    · rintro ⟨m, hm⟩
      cases hm
      exact Int.natCast_nonneg m
    · intro h
      exact ⟨n.toNat, congrArg some (Int.toNat_of_nonneg h).symm⟩

theorem CueTrack.writable_iff {names : Bool} {track : CueTrack α} :
    track.Writable names ↔
      (∀ cue ∈ track.cues, 0 ≤ (Scalar.integer? cue.tick).getD (-1)) ∧
      (0 :: (Sorting.sort Cue.goesBefore track.cues).map Cue.at).IsChain
        (fun m n => n < m + 2 ^ 28) ∧
      track.name.length < 2 ^ 28 ∧
      ∀ bytes ∈ (trackChunk names track).toOption, bytes.length < 2 ^ 32 + 8 := by
  simp only [← exists_integer?_iff, Option.mem_def, toOption_eq_some]
  exact ⟨fun h => ⟨h.ticks, h.waits, h.name_lt, h.length_lt⟩,
    fun ⟨hticks, hwaits, hname, hbytes⟩ => ⟨hticks, hwaits, hname, hbytes⟩⟩

instance (names : Bool) (track : CueTrack α) : Decidable (track.Writable names) :=
  decidable_of_iff _ CueTrack.writable_iff.symm

/-- A track that was read holds a track of cues: its name if names are written and there is one, its
cues in stable order, each of them a message on the channel, and one end. -/
structure FileTrack.Holds (names : Bool) (channel : Nat) (track : CueTrack α) (t : FileTrack) :
    Prop where
  name?_eq : t.name? = if names && track.name ≠ "" then some (latin (ascii track.name.toList))
    else none
  events : ∃ order events, Sorting.StableSort Cue.place track.cues order ∧
    List.Forall₂ Cue.Becomes order events ∧
    (∀ e ∈ events, e.body.OnChannel channel) ∧
    t.events = writtenEvents names track.name events

/-! ## One track -/

/-- Ticks that rise, with short waits, do not fall, with short waits. -/
theorem waits_of_rising {ticks : List Nat} (hrising : ticks.Pairwise (· ≤ ·))
    (hwaits : ticks.IsChain fun m n => n < m + 2 ^ 28) : Waits ticks := by
  unfold Waits
  match ticks with
  | [] => exact .nil
  | [_] => exact .singleton _
  | m :: n :: rest =>
    rw [List.isChain_cons_cons] at hwaits ⊢
    rw [List.pairwise_cons] at hrising
    exact ⟨⟨hrising.1 n (List.mem_cons_self ..), hwaits.1⟩, waits_of_rising hrising.2 hwaits.2⟩

theorem waits_sorted [ExactIntegers α] {names : Bool} {track : CueTrack α}
    (h : track.Writable names) :
    Waits (0 :: (Sorting.sort Cue.goesBefore track.cues).map Cue.at) := by
  have hsort := Sorting.sort_stable (goesBefore_comparesBy h.ticks)
  refine waits_of_rising (List.pairwise_cons.mpr ⟨fun n _ => Nat.zero_le n, ?_⟩) h.waits
  rw [List.pairwise_map]
  exact hsort.rising.imp fun hle => (Prod.Lex.toLex_le_toLex'.mp hle).1

/-- Cues that hold messages become events, as far behind them as it takes to get past the start. -/
theorem exists_events (shift : Nat) {channel : Nat} : ∀ {cues : List (Cue α)},
    (∀ cue ∈ cues, ∃ n : Nat, Scalar.integer? cue.tick = some ((n : Int) - shift)) →
    (∀ cue ∈ cues, IsMessage channel cue.bytes) →
    ∃ events, List.Forall₂ (Cue.BecomesAfter shift) cues events ∧
      (∀ e ∈ events, e.body.OnChannel channel) ∧
      events.map FileEvent.tick = cues.map fun cue => (cue.signed + (shift : Int)).toNat
  | [], _, _ => ⟨[], .nil, by simp, rfl⟩
  | cue :: cues, hticks, hmessages => by
      obtain ⟨n, hn⟩ := hticks cue (List.mem_cons_self ..)
      obtain ⟨body, hbody, hbytes⟩ := hmessages cue (List.mem_cons_self ..)
      obtain ⟨events, hbecome, hon, hmap⟩ := exists_events shift
        (fun c hc => hticks c (List.mem_cons_of_mem cue hc))
        (fun c hc => hmessages c (List.mem_cons_of_mem cue hc))
      refine ⟨⟨n, body⟩ :: events, .cons ⟨hn, hbytes⟩ hbecome, ?_, ?_⟩
      · intro e he
        rcases List.mem_cons.mp he with rfl | he
        · exact hbody
        · exact hon e he
      · rw [List.map_cons, List.map_cons, hmap, Cue.signed_eq hn, Int.sub_add_cancel,
          Int.toNat_natCast]

/-- The name of a track is found behind what follows it: no message is a meta event. -/
theorem name?_writtenEvents {names : Bool} {channel : Nat} {name : String}
    {events : List FileEvent} (h : ∀ e ∈ events, e.body.OnChannel channel) :
    FileTrack.name? ⟨writtenEvents names name events⟩
      = if names && name ≠ "" then some (latin (ascii name.toList)) else none := by
  have hnone : events.reverse.find? (fun e => e.body.metaKind? = some trackNameMeta) = none := by
    rw [List.find?_eq_none]
    intro e he
    have hchannel := (h e (List.mem_reverse.mp he)).channel_eq
    match hbody : e.body with
    | .metadata kind data =>
      rw [hbody] at hchannel
      cases hchannel
    | .noteOff .. | .noteOn .. | .controlChange .. | .programChange .. =>
      simp [EventBody.metaKind?]
  -- nor is the end of the track, from which the search starts
  have hend : ((endEvent (lastTick 0 events)).body.metaKind? = some trackNameMeta) = False :=
    eq_false (by decide : ¬some endOfTrackMeta = some trackNameMeta)
  unfold FileTrack.name? writtenEvents
  rw [List.append_assoc, List.reverse_append, List.reverse_append, List.reverse_singleton,
    List.singleton_append, List.cons_append, List.find?_cons]
  simp only [hend, decide_false, List.find?_append, hnone, Option.none_or]
  unfold nameEvents
  split
  · rfl
  · rfl

/-- A track that can be written is a printed one, and what it holds is what it was built from. -/
theorem trackChunk_of_writable [ExactIntegers α] {names : Bool} {channel : Nat}
    {track : CueTrack α} (h : track.Writable names)
    (hmessages : ∀ cue ∈ track.cues, IsMessage channel cue.bytes) :
    ∃ t : FileTrack, trackChunk names track = .ok t.bytes ∧ t.Fits ∧
      t.Holds names channel track := by
  have hsort := Sorting.sort_stable (goesBefore_comparesBy h.ticks)
  have hmem := fun cue => (hsort.mem_iff (x := cue)).mp
  obtain ⟨events, hbecome, hon, hmap⟩ := exists_events 0
    (fun cue hcue => by simpa using h.ticks cue (hmem cue hcue))
    (fun cue hcue => hmessages cue (hmem cue hcue))
  replace hbecome := hbecome.imp fun _ _ => Cue.becomesAfter_zero.mp
  have hwaits : Waits (0 :: events.map FileEvent.tick) := by
    simp only [hmap, Nat.cast_zero, add_zero]
    exact waits_sorted h
  have hchunk := trackChunk_eq names hbecome hwaits
  refine ⟨⟨writtenEvents names track.name events⟩, hchunk, ⟨?_, ?_⟩,
    ⟨name?_writtenEvents hon, _, events, hsort, hbecome, hon, rfl⟩⟩
  · exact readable_writtenEvents (fun _ => h.name_lt) hwaits fun e he =>
      ⟨(hon e he).complete, (hon e he).endsTrack_eq⟩
  · -- the chunk is eight bytes longer than its events
    have hlength := h.length_lt _ hchunk
    have hid : "MTrk".toList.length = 4 := by decide
    rw [FileTrack.bytes, chunk, List.length_append, List.length_append, ascii_length, hid,
      bigEndian_length] at hlength
    omega

/-! ## The tempo -/

/-- The events of the track with the tempo. -/
def tempoEvents (tempo : α) : List FileEvent :=
  [⟨0, .metadata (some tempoMeta) (bigEndian 3 (Scalar.truncate (microsecondsPerBeat tempo)))⟩,
    endEvent 0]

theorem trackChunk_tempoTrack [ExactIntegers α] (names : Bool) (s : Score α) :
    trackChunk names (tempoTrack s) = .ok (FileTrack.bytes ⟨tempoEvents s.tempo⟩) := by
  have hbecome : List.Forall₂ Cue.Becomes (Sorting.sort Cue.goesBefore (tempoTrack s).cues)
      [⟨0, .metadata (some tempoMeta)
        (bigEndian 3 (Scalar.truncate (microsecondsPerBeat s.tempo)))⟩] := by
    have hlength : Quantity.encode 3 = [3] := by decide
    refine .cons ⟨ExactIntegers.integer?_zero, ?_⟩ .nil
    simp [EventBody.bytes, setupCue, setTempo, hlength]
  rw [trackChunk_eq names hbecome (by simp [Waits])]
  cases names <;> rfl

theorem tempoEvents_fits (tempo : α) : FileTrack.Fits ⟨tempoEvents tempo⟩ where
  readable := .cons (Nat.le_refl 0) (by simp) (.metadata _ (by simp)) rfl
    (.last (Nat.le_refl 0) (by simp [endEvent]) (.metadata _ (by simp)) rfl)
  length_lt := by
    have hzero : Quantity.encode 0 = [0] := by decide
    have hthree : Quantity.encode 3 = [3] := by decide
    simp [tempoEvents, eventBytes, endEvent, EventBody.bytes, hzero, hthree]

/-! ## The file -/

/-- Tracks that are printed one by one are printed together. -/
theorem fileBytes_eq {options : ExportOptions α} {ppq : Nat}
    (hppq : Scalar.integer? options.ppq = some (ppq : Int)) {tracks : List (CueTrack α)}
    {read : List FileTrack} (h : List.Forall₂
      (fun track t => trackChunk options.trackNames track = .ok t.bytes) tracks read) :
    fileBytes options tracks = .ok (File.bytes ⟨1, tracks.length, ppq, read⟩) := by
  have hchunks := mapM_eq_ok.mpr (List.forall₂_map_right_iff.mpr h)
  rw [fileBytes, hchunks, headerChunk, Scalar.truncate_of_integer? hppq]
  rfl

theorem forall_of_forall₂ {β γ : Type} {p : γ → Prop} {R : β → γ → Prop} (h : ∀ a b, R a b → p b)
    {items : List β} {found : List γ} (hfound : List.Forall₂ R items found) :
    ∀ b ∈ found, p b := by
  induction hfound with
  | nil => simp
  | cons hab _ ih =>
    intro c hc
    rcases List.mem_cons.mp hc with rfl | hc
    · exact h _ _ hab
    · exact ih c hc

/-- **Exported scores are read back.** If the ticks a beat are an integer that the header can hold
and every track can be written, then the score is written, the reader takes the file, and it finds
the format, the ticks a beat, the number of tracks, the tempo, and behind it each track with what it
was built from. -/
theorem ofBytes_exportScore [ExactIntegers α] {v : Vocabulary α} {options : ExportOptions α}
    {s : Score α} {ppq : Nat} (hsections : s.sections ≠ [])
    (hppq : Scalar.integer? options.ppq = some (ppq : Int)) (hppqMax : ppq ≤ 32767)
    (hcount : (soundTracks v options s).length + 1 ≤ 65535)
    (hwritable : ∀ sound ∈ soundTracks v options s, sound.1.Writable options.trackNames) :
    ∃ out file, exportScore v options s = .ok out ∧ File.ofBytes out.bytes = .ok file ∧
      file.format = 1 ∧ file.ppq = ppq ∧ file.trackCount = out.trackCount ∧
      out.tracks = (soundTracks v options s).map Prod.snd ∧
      ∃ sounds, file.tracks = ⟨tempoEvents s.tempo⟩ :: sounds ∧
        List.Forall₂ (fun sound t => t.Holds options.trackNames sound.2.channel sound.1)
          (soundTracks v options s) sounds := by
  obtain ⟨sounds, hsounds⟩ := exists_forall₂ fun sound h =>
    trackChunk_of_writable (hwritable sound h) fun cue hcue =>
      ((soundTracks_made h).2 cue hcue).isMessage (soundTracks_made h).1
  -- the tempo is one more track, in front of those that sound
  have hread : List.Forall₂ (fun track t => trackChunk options.trackNames track = .ok t.bytes)
      (tempoTrack s :: (soundTracks v options s).map Prod.fst)
      (⟨tempoEvents s.tempo⟩ :: sounds) := by
    refine .cons (trackChunk_tempoTrack options.trackNames s) ?_
    rw [List.forall₂_map_left_iff]
    exact hsounds.imp fun _ _ h => h.1
  have hfits : ∀ t ∈ FileTrack.mk (tempoEvents s.tempo) :: sounds, t.Fits := by
    intro t ht
    rcases List.mem_cons.mp ht with rfl | ht
    · exact tempoEvents_fits s.tempo
    · exact forall_of_forall₂ (fun _ _ h => h.2.1) hsounds t ht
  have hlength := hread.length_eq
  rw [List.length_cons, List.length_map] at hlength
  have hfile : File.Fits ⟨1, (soundTracks v options s).length + 1, ppq,
      ⟨tempoEvents s.tempo⟩ :: sounds⟩ :=
    { format_le := Nat.le_succ 1
      trackCount_eq := hlength
      trackCount_lt := Nat.lt_succ_of_le hcount
      ppq_lt := Nat.lt_succ_of_le hppqMax
      tracks := hfits }
  have hbytes := fileBytes_eq hppq hread
  rw [List.length_cons, List.length_map] at hbytes
  refine ⟨⟨_, (soundTracks v options s).length + 1, ticksOf options.ppq s.totalBeats, options.ppq,
    (soundTracks v options s).map Prod.snd⟩, _, ?_, ofBytes_bytes hfile, rfl, rfl, rfl, rfl, sounds,
    rfl, hsounds.imp fun _ _ h => h.2.2⟩
  rw [exportScore, if_neg (by rwa [List.isEmpty_iff])]
  simp only [hbytes, List.length_cons, List.length_map, Except.map]
  rfl

/-- A melody with a chord, and a drum that strikes twice. -/
def duet : Score Float where
  title := "Duet"
  tempo := 90
  key := "C"
  timeSignature := "4/4"
  sections :=
    [{ name := "Verse", bars := 2, startBar := 0, key := none, tempo := none
       tracks := [⟨"Lead", "piano", [⟨60, 0, 1, 0.5⟩], [⟨"A", "m", 4, 1, 2, 0.5⟩], 1, 0.5⟩]
       drums := some ⟨"Drums", [⟨"kick", 0, 1⟩, ⟨"kick", 2, 1⟩], 1⟩ }]

theorem ofBytes_exportScore_duet :
    ∃ out file, exportScore Vocabulary.standard .standard duet = .ok out ∧
      File.ofBytes out.bytes = .ok file ∧ file.format = 1 ∧ file.ppq = 480 ∧
      file.trackCount = out.trackCount ∧
      out.tracks = (soundTracks Vocabulary.standard .standard duet).map Prod.snd ∧
      ∃ sounds, file.tracks = ⟨tempoEvents duet.tempo⟩ :: sounds ∧
        List.Forall₂ (fun sound t => t.Holds true sound.2.channel sound.1)
          (soundTracks Vocabulary.standard .standard duet) sounds :=
  ofBytes_exportScore (by decide +kernel) (by decide +kernel) (by decide) (by decide +kernel)
    (by decide +kernel)

/-! ## A late start -/

/-- A drum that strikes for the first time in beat `2 ^ 26`. -/
def lateDrum : Score Float where
  title := "Late"
  tempo := 120
  key := "C"
  timeSignature := "4/4"
  sections :=
    [{ name := "Rest", bars := 8, startBar := 0, key := none, tempo := none, tracks := []
       drums := some ⟨"Drums", [⟨"kick", 67108864, 1⟩], 1⟩ }]

/-- Four ticks a beat, and nothing but notes. -/
def bareOptions : ExportOptions Float := ⟨4, false, false⟩

/-- **A long wait before the first event cannot be read**, though the two ticks of the track are
next to each other. -/
theorem late_start_unreadable :
    lateDrum.sections ≠ [] ∧ Scalar.integer? bareOptions.ppq = some 4 ∧
      (soundTracks Vocabulary.standard bareOptions lateDrum).length + 1 ≤ 65535 ∧
      (∀ sound ∈ soundTracks Vocabulary.standard bareOptions lateDrum,
        (∀ cue ∈ sound.1.cues, 0 ≤ (Scalar.integer? cue.tick).getD (-1)) ∧
        ((Sorting.sort Cue.goesBefore sound.1.cues).map Cue.at).IsChain
          (fun m n => n < m + 2 ^ 28) ∧
        sound.1.name.length < 2 ^ 28 ∧
        ((trackChunk false sound.1).toOption.getD []).length < 2 ^ 32) ∧
      (exportScore Vocabulary.standard bareOptions lateDrum).toOption.map
        (fun out => File.ofBytes out.bytes) = some (.error (.quantityTooLong 41)) := by
  decide +kernel

end LeadSheet.Midi
