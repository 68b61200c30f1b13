import LeadSheet.Proofs.Harmony.Integers
import LeadSheet.Proofs.Midi.Writing

/-!
# Every score can be written

What could stop the exporter is a wait that is not a natural number of ticks. In exact arithmetic
there is none: ticks are rounded, and a cue that lies before the one before it follows at once. So
every score with a section is written (`exists_exportScore`).
-/

namespace LeadSheet.Midi

theorem isInteger_round (x : Rat) : IsInteger (Scalar.round x) := ⟨_, Scalar.round_rat x⟩

theorem Cue.Made.isInteger_tick {ppq : Rat} {channel : Nat} {cue : Cue Rat}
    (h : cue.Made ppq channel) : IsInteger cue.tick := by
  cases h with
  | note hcue =>
    simp only [noteCues, List.mem_cons, List.not_mem_nil, or_false] at hcue
    rcases hcue with rfl | rfl
    · exact isInteger_round _
    · exact isInteger_round _
  | mixer hcue =>
    simp only [mixerCues, List.mem_cons, List.not_mem_nil, or_false] at hcue
    rcases hcue with rfl | rfl
    · exact .numeral 0
    · exact .numeral 0
  | program number => exact .numeral 0

theorem exists_encode? {x : Rat} (hx : IsInteger x) (hpos : ((0 : Nat) : Rat) ≤ x) :
    ∃ time, Quantity.encode? x = some time := by
  obtain ⟨n, hn⟩ := hx
  rw [Quantity.encode?, Scalar.numeral_rat, if_neg (not_lt.mpr hpos), Scalar.integer?_rat.mpr hn]
  exact ⟨_, rfl⟩

/-- At integer ticks every wait can be written. -/
theorem exists_deltaBytes : ∀ {cues : List (Cue Rat)} {previous : Rat}, IsInteger previous →
    (∀ cue ∈ cues, IsInteger cue.tick) → ∃ bytes, deltaBytes previous cues = .ok bytes
  | [], _, _, _ => ⟨[], rfl⟩
  | cue :: cues, previous, hprevious, hticks => by
      have htick := hticks cue (List.mem_cons_self ..)
      obtain ⟨bytes, hbytes⟩ := exists_deltaBytes htick
        fun c hc => hticks c (List.mem_cons_of_mem cue hc)
      -- a tick that lies before the one before it waits for nothing
      have hwait := (IsInteger.natCast 0).max (htick.sub hprevious)
      obtain ⟨time, htime⟩ := exists_encode? hwait (le_max_left ..)
      rw [deltaBytes, Scalar.max_rat, Scalar.numeral_rat, htime, hbytes]
      exact ⟨_, rfl⟩

/-- Fractions are ordered, whether they are ticks or not. -/
theorem goesBefore_comparesBy_tick (cues : List (Cue Rat)) :
    Sorting.ComparesBy (fun c => toLex (c.tick, c.rank.place)) Cue.goesBefore cues :=
  goesBefore_comparesBy_key Cue.tick fun _ _ _ _ => Iff.rfl

theorem exists_trackChunk (names : Bool) {track : CueTrack Rat}
    (h : ∀ cue ∈ track.cues, IsInteger cue.tick) :
    ∃ bytes, trackChunk names track = .ok bytes := by
  have hsort := Sorting.sort_stable (goesBefore_comparesBy_tick track.cues)
  obtain ⟨bytes, hbytes⟩ := exists_deltaBytes (.numeral 0)
    fun cue hcue => h cue (hsort.mem_iff.mp hcue)
  rw [trackChunk, hbytes]
  exact ⟨_, rfl⟩

theorem exists_fileBytes (options : ExportOptions Rat) {tracks : List (CueTrack Rat)}
    (h : ∀ track ∈ tracks, ∀ cue ∈ track.cues, IsInteger cue.tick) :
    ∃ bytes, fileBytes options tracks = .ok bytes := by
  obtain ⟨chunks, hchunks⟩ := exists_forall₂ fun track htrack =>
    exists_trackChunk options.trackNames (h track htrack)
  rw [fileBytes, mapM_eq_ok.mpr hchunks]
  exact ⟨_, rfl⟩

/-- **Every score with a section can be written.** -/
theorem exists_exportScore (v : Vocabulary Rat) (options : ExportOptions Rat) {s : Score Rat}
    (hsections : s.sections ≠ []) :
    ∃ out, exportScore v options s = .ok out ∧
      out.tracks = (soundTracks v options s).map Prod.snd := by
  have hticks : ∀ track ∈ tempoTrack s :: (soundTracks v options s).map Prod.fst,
      ∀ cue ∈ track.cues, IsInteger cue.tick := by
    intro track htrack cue hcue
    rcases List.mem_cons.mp htrack with rfl | htrack
    · cases List.mem_singleton.mp hcue
      exact .numeral 0
    · obtain ⟨sound, hsound, rfl⟩ := List.mem_map.mp htrack
      exact ((soundTracks_made hsound).2 cue hcue).isInteger_tick
  obtain ⟨bytes, hbytes⟩ := exists_fileBytes options hticks
  rw [exportScore, if_neg (by rwa [List.isEmpty_iff])]
  dsimp only
  rw [hbytes]
  exact ⟨_, rfl, rfl⟩

end LeadSheet.Midi
