import LeadSheet.Proofs.Midi.Total
import LeadSheet.Proofs.Timeline.Sounds
import LeadSheet.Proofs.Timeline.Spans
import Mathlib.Tactic.FieldSimp

/-!
# The file and the timeline agree on the music

A score is walked twice. The timeline goes section by section and gives every event its seconds; the
file goes name by name and gives every message its tick. In exact arithmetic both start the same
notes (`onsets_perm`): of the same track and pitch, with velocities that differ only in that a file
has no note of velocity zero, and at ticks that are the rounded seconds.

Both walks are brought to one form, a list of onsets for each note as it is written. What is left is
that sections of tracks and names of tracks hold the same tracks, which is grouping.
-/

namespace LeadSheet

/-- The start of a note. Channels are left out: the two walks number them differently. -/
structure Onset where
  track : String
  pitch : Rat
  velocity : Int
  tick : Rat
  deriving DecidableEq, Repr

/-- The start of a note that an event of a timeline stands for, at so many ticks a beat. A file has
no velocity below one. -/
def TimedEvent.onset? (tempo ppq : Rat) (e : TimedEvent Rat) : Option Onset :=
  if e.kind = .noteOn then
    some ⟨e.track, e.pitch, max 1 e.velocity, Scalar.round (e.seconds * tempo / 60 * ppq)⟩
  else none

/-- The start of a note that a message of a track stands for. -/
def Midi.Cue.onset? (track : String) (c : Midi.Cue Rat) : Option Onset :=
  match c.bytes with
  | [status, note, velocity] =>
    if status.toNat / 16 = 9 then some ⟨track, note.toNat, velocity.toNat, c.tick⟩ else none
  | _ => none

/-- The pitches that a score gives are integers. -/
structure Score.IntegerPitched (s : Score Rat) : Prop where
  notes : ∀ t ∈ s.tracks, ∀ n ∈ t.notes, IsInteger n.pitch
  octaves : ∀ t ∈ s.tracks, ∀ c ∈ t.chords, IsInteger c.octave

/-! ## Onsets as they are written -/

/-- The start of a note at a beat of the song. -/
def noteOnset (ppq : Rat) (track : String) (pitch beat velocity : Rat) : Onset :=
  ⟨track, clampPitch pitch, max 1 (Scalar.sevenBit velocity), Scalar.round (beat * ppq)⟩

/-- The starts of the notes and chords of a track. -/
def trackOnsets (v : Vocabulary Rat) (ppq sectionStart : Rat) (t : Track Rat) : List Onset :=
  (t.notes.map fun n => noteOnset ppq t.name n.pitch (sectionStart + n.start) n.velocity)
    ++ t.chords.flatMap fun c => (c.pitches v).map fun pitch =>
      noteOnset ppq t.name pitch (sectionStart + c.start) c.velocity

/-- The starts of the drum hits of a section. -/
def hitOnsets (v : Vocabulary Rat) (ppq : Rat) (part : Section Rat) : List Onset :=
  match part.drums with
  | some drums => drums.hits.map fun h =>
      noteOnset ppq Default.drumTrackName (v.drumKey h.drum) (part.startBeat + h.start) h.velocity
  | none => []

/-! ## The timeline -/

namespace Timeline

variable {tempo ppq : Rat}

/-- Seconds that are turned into beats again. -/
theorem beats_of_secondsOf (htempo : tempo ≠ 0) (start offset : Rat) :
    (secondsOf tempo start + secondsOf tempo offset) * tempo / 60 = start + offset := by
  unfold secondsOf
  simp only [Scalar.numeral_rat]
  push_cast
  field_simp

/-- Of a pair of events the first one starts the note. -/
theorem filterMap_pair (htempo : tempo ≠ 0) (track : String) (channel : Nat) (pitch : Rat)
    (velocity : Int) (start offset stop : Rat) :
    (pair track channel pitch velocity (secondsOf tempo start + secondsOf tempo offset)
        stop).filterMap (TimedEvent.onset? tempo ppq)
      = [⟨track, pitch, max 1 velocity, Scalar.round ((start + offset) * ppq)⟩] := by
  simp only [pair, TimedEvent.onset?, List.filterMap_cons, List.filterMap_nil, if_true,
    reduceCtorEq, if_false, beats_of_secondsOf htempo]

theorem filterMap_trackEvents (htempo : tempo ≠ 0) (v : Vocabulary Rat) (sectionStart : Rat)
    (channel : Nat) (t : Track Rat) :
    (trackEvents v tempo (secondsOf tempo sectionStart) channel t).filterMap
        (TimedEvent.onset? tempo ppq)
      = trackOnsets v ppq sectionStart t := by
  unfold trackEvents trackOnsets
  rw [List.filterMap_append, List.filterMap_flatMap, List.filterMap_flatMap]
  congr 1
  · rw [List.map_eq_flatMap]
    refine List.flatMap_congr fun n _ => ?_
    unfold noteEvents
    exact filterMap_pair htempo ..
  · refine List.flatMap_congr fun c _ => ?_
    unfold chordEvents
    dsimp only
    rw [List.filterMap_flatMap, List.map_eq_flatMap]
    refine List.flatMap_congr fun pitch hpitch => ?_
    rw [filterMap_pair htempo, noteOnset, Chord.clampPitch_of_mem hpitch]

theorem filterMap_sectionEvents (htempo : tempo ≠ 0) (v : Vocabulary Rat)
    (plan : List (Assignment Rat)) (part : Section Rat) :
    (sectionEvents v tempo plan part).filterMap (TimedEvent.onset? tempo ppq)
      = part.tracks.flatMap (trackOnsets v ppq part.startBeat) ++ hitOnsets v ppq part := by
  unfold sectionEvents hitOnsets
  rw [List.filterMap_append, List.filterMap_flatMap]
  congr 1
  · exact List.flatMap_congr fun t _ => filterMap_trackEvents htempo ..
  · cases part.drums with
    | none => rfl
    | some drums =>
      dsimp only
      rw [List.filterMap_flatMap, List.map_eq_flatMap]
      refine List.flatMap_congr fun h _ => ?_
      unfold hitEvents
      exact filterMap_pair htempo ..

/-- The onsets of a timeline, section by section. -/
theorem onsets_perm_sections {s : Score Rat} (htempo : s.tempo ≠ 0) (v : Vocabulary Rat) :
    ((ofScore v s).events.filterMap (TimedEvent.onset? s.tempo ppq)).Perm
      (s.sections.flatMap (fun part => part.tracks.flatMap (trackOnsets v ppq part.startBeat))
        ++ s.sections.flatMap (hitOnsets v ppq)) := by
  refine ((ofScore_stable v s).perm.symm.filterMap _).trans ?_
  unfold enumerate
  rw [List.filterMap_flatMap, List.flatMap_congr fun part _ =>
    filterMap_sectionEvents htempo v (assignChannels v s) part]
  exact (List.flatMap_append_perm ..).symm

end Timeline

/-! ## The file -/

namespace Midi

variable {ppq : Rat}

theorem truncate_natCast (n : Nat) : Scalar.truncate (n : Rat) = n :=
  Scalar.truncate_of_integer? (Scalar.integer?_rat.mpr (by push_cast; rfl))

/-- Of the two messages of a note the first one starts it. -/
theorem filterMap_noteCues {pitch : Rat} (hpitch : IsInteger pitch) (track : String)
    (channel : Nat) (start duration velocity : Rat) :
    (noteCues ppq channel pitch start duration velocity).filterMap (Cue.onset? track)
      = [noteOnset ppq track pitch start velocity] := by
  -- an integer pitch in range and a velocity in range are bytes as they are
  obtain ⟨note, hnote, hclamp⟩ := hpitch.clampPitch_eq
  have hon : (status 0x90 channel).toNat / 16 = 9 := status_kind (by decide) (by decide) _
  have hoff : ¬(status 0x80 channel).toNat / 16 = 9 := by
    rw [status_kind (by decide) (by decide)]
    decide
  have hvelocity : ((dataByte (max 1 (Scalar.sevenBit velocity))).toNat : Int)
      = max 1 (Scalar.sevenBit velocity) := by
    have := sevenBit_nonneg velocity
    have := sevenBit_le velocity
    exact dataByte_toNat (by omega) (by omega)
  have hbyte : (dataByte (note : Int)).toNat = note := by
    have := dataByte_toNat (n := note) (by omega) (by omega)
    omega
  unfold noteCues noteOnset
  simp only [List.filterMap_cons, List.filterMap_nil, Cue.onset?, noteOn, noteOff, hon, hoff,
    if_true, if_false, hclamp, truncate_natCast, hbyte, hvelocity, ticksOf]

theorem onset?_setupCue_controlChange (track : String) (channel controller value : Int) :
    Cue.onset? track (setupCue (controlChange channel controller value)) = none := by
  have hkind : ¬(status 0xB0 channel).toNat / 16 = 9 := by
    rw [status_kind (by decide) (by decide)]
    decide
  simp only [Cue.onset?, setupCue, controlChange, hkind, if_false]

theorem filterMap_mixerCues (track : String) (channel : Nat) (volume pan : Rat) :
    (mixerCues channel volume pan).filterMap (Cue.onset? track) = [] := by
  simp only [mixerCues, List.filterMap_cons, List.filterMap_nil, onset?_setupCue_controlChange]

theorem filterMap_trackCues {v : Vocabulary Rat} {s : Score Rat} (hv : v.IntegerPitched)
    (hs : s.IntegerPitched) {t : Track Rat} (ht : t ∈ s.tracks) (channel : Nat)
    (sectionStart : Rat) :
    (trackCues v ppq channel sectionStart t).filterMap (Cue.onset? t.name)
      = trackOnsets v ppq sectionStart t := by
  unfold trackCues trackOnsets
  rw [List.filterMap_append, List.filterMap_flatMap, List.filterMap_flatMap]
  congr 1
  · rw [List.map_eq_flatMap]
    exact List.flatMap_congr fun n hn => filterMap_noteCues (hs.notes t ht n hn) ..
  · refine List.flatMap_congr fun c hc => ?_
    unfold chordCues
    rw [List.filterMap_flatMap, List.map_eq_flatMap]
    exact List.flatMap_congr fun pitch hpitch =>
      filterMap_noteCues (c.isInteger_of_mem hv (hs.octaves t ht c hc) hpitch) ..

theorem filterMap_instrumentTrack {v : Vocabulary Rat} {s : Score Rat} (hv : v.IntegerPitched)
    (hs : s.IntegerPitched) (options : ExportOptions Rat) (channel : Nat) (name : String) :
    (instrumentTrack v options s channel name).1.cues.filterMap (Cue.onset? name)
      = s.sections.flatMap fun part =>
          (tracksNamed name part).flatMap (trackOnsets v options.ppq part.startBeat) := by
  have hsetup : ∀ (number : Int) (mixer : List (Cue Rat)),
      mixer.filterMap (Cue.onset? name) = [] →
      (setupCue (programChange channel number) :: mixer).filterMap (Cue.onset? name) = [] := by
    intro number mixer hmixer
    rw [List.filterMap_cons, hmixer]
    rfl
  unfold instrumentTrack
  dsimp only
  rw [List.filterMap_append, List.filterMap_flatMap, hsetup, List.append_nil]
  · refine List.flatMap_congr fun part hpart => ?_
    rw [List.filterMap_flatMap]
    refine List.flatMap_congr fun t ht => ?_
    obtain ⟨hmem, hname⟩ := List.mem_filter.mp ht
    rw [← eq_of_beq hname]
    exact filterMap_trackCues hv hs (List.mem_flatMap.mpr ⟨part, hpart, hmem⟩) ..
  · split
    · split
      · exact filterMap_mixerCues ..
      · rfl
    · rfl

theorem filterMap_drumTrack {v : Vocabulary Rat} (hv : v.IntegerPitched) (s : Score Rat)
    (options : ExportOptions Rat) :
    (drumTrack v options s).1.cues.filterMap (Cue.onset? Default.drumTrackName)
      = s.sections.flatMap (hitOnsets v options.ppq) := by
  unfold drumTrack
  dsimp only
  rw [List.filterMap_append, List.filterMap_flatMap, drumParts, List.filterMap_eq_flatMap_toList,
    List.flatMap_assoc]
  conv => rhs; rw [← List.append_nil (s.sections.flatMap _)]
  congr 1
  · refine List.flatMap_congr fun part _ => ?_
    unfold hitOnsets
    cases part.drums with
    | none => rfl
    | some drums =>
      dsimp only
      split
      · rename_i hempty
        rw [List.isEmpty_iff.mp hempty]
        rfl
      · rw [Option.toList_some, List.flatMap_singleton, List.filterMap_flatMap,
          List.map_eq_flatMap]
        exact List.flatMap_congr fun h _ => filterMap_noteCues (hv.drumKey h.drum) ..
  · split
    · split
      · exact filterMap_mixerCues ..
      · rfl
    · rfl

/-- Without any hit there is nothing for the drums to start. -/
theorem flatMap_hitOnsets_eq_nil {s : Score Rat} (h : ¬s.hasDrumHits = true)
    (v : Vocabulary Rat) : s.sections.flatMap (hitOnsets v ppq) = [] := by
  rw [List.flatMap_eq_nil_iff]
  intro part hpart
  have hnone : ¬part.hasDrumHits = true := fun hhits =>
    h (List.any_eq_true.mpr ⟨part, hpart, hhits⟩)
  unfold hitOnsets
  unfold Section.hasDrumHits at hnone
  split
  · rename_i drums hdrums
    rw [hdrums] at hnone
    have hempty : drums.hits = [] := by simpa using hnone
    rw [hempty, List.map_nil]
  · rfl

/-- The onsets of a file, name by name. -/
theorem flatMap_soundTracks {v : Vocabulary Rat} {s : Score Rat} (hv : v.IntegerPitched)
    (hs : s.IntegerPitched) (options : ExportOptions Rat) :
    ((soundTracks v options s).flatMap fun sound =>
        sound.1.cues.filterMap (Cue.onset? sound.1.name))
      = ((sortedNames s).flatMap fun name => s.sections.flatMap fun part =>
          (tracksNamed name part).flatMap (trackOnsets v options.ppq part.startBeat))
        ++ s.sections.flatMap (hitOnsets v options.ppq) := by
  unfold soundTracks
  rw [List.flatMap_append, List.flatMap_def, map_mapIdx _ _ fun index name =>
    filterMap_instrumentTrack hv hs options (melodicChannel index) name, ← List.flatMap_def]
  congr 1
  split
  · rw [List.flatMap_singleton]
    exact filterMap_drumTrack hv s options
  · rename_i hhits
    rw [flatMap_hitOnsets_eq_nil hhits]
    rfl

/-- Name by name or section by section, the tracks are the same. -/
theorem flatMap_tracksNamed_perm (s : Score Rat) (f : Section Rat → Track Rat → List Onset) :
    ((sortedNames s).flatMap fun name => s.sections.flatMap fun part =>
        (tracksNamed name part).flatMap (f part)).Perm
      (s.sections.flatMap fun part => part.tracks.flatMap (f part)) := by
  have hcovered : ∀ placed ∈ s.sections.flatMap fun part => part.tracks.map (Prod.mk part),
      placed.2.name ∈ sortedNames s := by
    intro placed hmem
    obtain ⟨part, hpart, hplaced⟩ := List.mem_flatMap.mp hmem
    obtain ⟨t, ht, rfl⟩ := List.mem_map.mp hplaced
    exact name_mem_sortedNames (List.mem_flatMap.mpr ⟨part, hpart, ht⟩)
  -- each track is taken together with its section, so that one grouping does for all of them
  have hgroups := flatMap_filter_perm (fun placed : Section Rat × Track Rat => placed.2.name)
    (nodup_sortedNames s) hcovered
  have hflat := hgroups.flatMap_right fun placed => f placed.1 placed.2
  simp only [List.flatMap_assoc, List.filter_flatMap, List.filter_map, List.flatMap_map] at hflat
  exact hflat

end Midi

/-- **The timeline and the file start the same notes.** -/
theorem onsets_perm {v : Vocabulary Rat} {s : Score Rat} (htempo : s.tempo ≠ 0)
    (hv : v.IntegerPitched) (hs : s.IntegerPitched) (options : Midi.ExportOptions Rat) :
    ((Timeline.ofScore v s).events.filterMap (TimedEvent.onset? s.tempo options.ppq)).Perm
      ((Midi.soundTracks v options s).flatMap fun sound =>
        sound.1.cues.filterMap (Midi.Cue.onset? sound.1.name)) := by
  rw [Midi.flatMap_soundTracks hv hs options]
  exact (Timeline.onsets_perm_sections htempo v).trans
    ((Midi.flatMap_tracksNamed_perm s fun part => trackOnsets v options.ppq part.startBeat).symm
      |>.append_right _)

/-- **The file and the timeline agree on the music.** At integer pitches and a tempo above zero, a
score with a section is written, and what it was written from starts the notes of the timeline,
track by track and pitch by pitch, with a velocity of one at least and at the rounded ticks. Of each
track name there is one melodic entry in the channel plan and one melodic track in the file, both
with the program, the volume and the pan of the first track of that name. -/
theorem file_agrees_with_timeline {v : Vocabulary Rat} {s : Score Rat}
    (options : Midi.ExportOptions Rat) (hsections : s.sections ≠ []) (htempo : 0 < s.tempo)
    (hv : v.IntegerPitched) (hs : s.IntegerPitched) :
    (∃ out, Midi.exportScore v options s = .ok out ∧
      out.tracks = (Midi.soundTracks v options s).map Prod.snd) ∧
    ((Timeline.ofScore v s).events.filterMap (TimedEvent.onset? s.tempo options.ppq)).Perm
      ((Midi.soundTracks v options s).flatMap fun sound =>
        sound.1.cues.filterMap (Midi.Cue.onset? sound.1.name)) ∧
    ∀ name first, s.tracks.find? (·.name == name) = some first → ∃ a sound,
      (assignChannels v s).filter (fun a => a.track == name && !a.percussion) = [a] ∧
      (Midi.soundTracks v options s).filter
        (fun sound => sound.1.name == name && sound.2.program.isSome) = [sound] ∧
      a.program = v.melodicProgram first.instrument ∧ a.volume = first.volume ∧
      a.pan = first.pan ∧ sound.2.program = some a.program ∧
      sound.1.cues.filter (·.rank == .setup)
        = Midi.setupCue (Midi.programChange sound.2.channel (Scalar.truncate a.program))
          :: if options.mixer then Midi.mixerCues sound.2.channel a.volume a.pan else [] := by
  refine ⟨Midi.exists_exportScore v options hsections, onsets_perm htempo.ne' hv hs options, ?_⟩
  intro name first hfirst
  obtain ⟨index, hplan⟩ := filter_assignChannels v hfirst
  obtain ⟨channel, hfile⟩ := Midi.filter_soundTracks v options hfirst
  obtain ⟨hprogram, hsetup⟩ := Midi.instrumentTrack_setup v options hfirst channel
  exact ⟨_, _, hplan, hfile, rfl, rfl, rfl, hprogram, hsetup⟩

/-- Two sections with tracks of one name, which the first of them has twice. -/
def sharedName : Score Rat where
  title := "Shared"
  tempo := 90
  key := "C"
  timeSignature := "4/4"
  sections :=
    [{ name := "Verse", bars := 1, startBar := 0, key := none, tempo := none
       tracks :=
        [⟨"Lead", "piano", [⟨60, 0, 1, 1 / 2⟩], [], 1, 1 / 2⟩,
          ⟨"Lead", "bass", [], [⟨"A", "m7", 3, 1, 1, 0⟩], 1 / 2, 0⟩]
       drums := some ⟨"Drums", [⟨"kick", 0, 1⟩], 1⟩ },
      { name := "Chorus", bars := 1, startBar := 1, key := none, tempo := none
        tracks := [⟨"Bass", "bass", [⟨140, 1 / 3, 1, 1⟩], [], 1, 1 / 2⟩,
          ⟨"Lead", "organ", [⟨64, 0, 1, 1 / 2⟩], [], 1, 1 / 2⟩]
        drums := none }]

theorem file_agrees_with_timeline_sharedName :
    (∃ out, Midi.exportScore Vocabulary.standard .standard sharedName = .ok out ∧
      out.tracks = (Midi.soundTracks Vocabulary.standard .standard sharedName).map Prod.snd) ∧
    ((Timeline.ofScore Vocabulary.standard sharedName).events.filterMap
        (TimedEvent.onset? sharedName.tempo Midi.ExportOptions.standard.ppq)).Perm
      ((Midi.soundTracks Vocabulary.standard .standard sharedName).flatMap fun sound =>
        sound.1.cues.filterMap (Midi.Cue.onset? sound.1.name)) := by
  have h := file_agrees_with_timeline (v := Vocabulary.standard) (s := sharedName) .standard
    (by decide) (by decide +kernel)
    ⟨by decide +kernel, by decide +kernel, by decide +kernel, by decide +kernel⟩
    ⟨by decide +kernel, by decide +kernel⟩
  exact ⟨h.1, h.2.1⟩

end LeadSheet
