import LeadSheet.Proofs.Midi.Writing
import LeadSheet.Proofs.Timeline.Names

/-!
# One sound for each name

A name has one melodic entry in the channel plan, and one melodic track in a file. Both take their
program, volume and pan from the first track of the name, wherever in the score it stands.
-/

namespace LeadSheet

variable {α : Type} [Scalar α] {s : Score α} {name : String} {first : Track α}

/-- A name has one melodic entry in the channel plan, with the sound of its first track. -/
theorem filter_assignChannels (v : Vocabulary α)
    (h : s.tracks.find? (·.name == name) = some first) :
    ∃ index, (assignChannels v s).filter (fun a => a.track == name && !a.percussion)
      = [melodicAssignment v index first] := by
  have hname : first.name = name := by simpa using List.find?_some h
  subst hname
  rw [← find?_firstOfEachName] at h
  obtain ⟨index, hindex, hfirst⟩ := List.mem_iff_getElem.mp (List.mem_of_find?_eq_some h)
  have hplan : (((firstOfEachName s.tracks).mapIdx (melodicAssignment v)).map (·.track)).Nodup := by
    rw [map_mapIdx Assignment.track Track.name fun _ _ => rfl]
    exact nodup_firstOfEachName s.tracks
  have hmem : melodicAssignment v index first
      ∈ (firstOfEachName s.tracks).mapIdx (melodicAssignment v) :=
    List.mem_mapIdx.mpr ⟨index, hindex, by rw [hfirst]⟩
  -- entries of other names fall out, and so does that of the drums
  refine ⟨index, ?_⟩
  rw [assignChannels, List.filter_append, ← filter_eq_singleton (·.track) hplan hmem]
  conv => rhs; rw [← List.append_nil (List.filter _ _)]
  congr 1
  · refine List.filter_congr fun a ha => ?_
    obtain ⟨i, hi, rfl⟩ := List.mem_mapIdx.mp ha
    simp [melodicAssignment]
  · split
    · simp [drumAssignment]
    · rfl

namespace Midi

variable (v : Vocabulary α) (options : ExportOptions α)

/-- A name has one melodic track in a file. -/
theorem filter_soundTracks (h : s.tracks.find? (·.name == name) = some first) :
    ∃ channel, (soundTracks v options s).filter
        (fun sound => sound.1.name == name && sound.2.program.isSome)
      = [instrumentTrack v options s channel name] := by
  have hmem : name ∈ sortedNames s := by
    have hname : first.name = name := by simpa using List.find?_some h
    exact hname ▸ name_mem_sortedNames (List.mem_of_find?_eq_some h)
  obtain ⟨index, hindex, hfirst⟩ := List.mem_iff_getElem.mp hmem
  have hnames : (((sortedNames s).mapIdx fun index name =>
      instrumentTrack v options s (melodicChannel index) name).map (·.1.name)).Nodup := by
    rw [map_mapIdx (fun sound : CueTrack α × TrackInfo α => sound.1.name) id fun _ _ => rfl,
      List.map_id]
    exact nodup_sortedNames s
  have htrack : instrumentTrack v options s (melodicChannel index) name ∈ (sortedNames s).mapIdx
      fun index name => instrumentTrack v options s (melodicChannel index) name :=
    List.mem_mapIdx.mpr ⟨index, hindex, by rw [hfirst]⟩
  refine ⟨melodicChannel index, ?_⟩
  rw [soundTracks, List.filter_append, ← filter_eq_singleton (·.1.name) hnames htrack]
  conv => rhs; rw [← List.append_nil (List.filter _ _)]
  congr 1
  · refine List.filter_congr fun sound hsound => ?_
    obtain ⟨i, hi, rfl⟩ := List.mem_mapIdx.mp hsound
    simp [instrumentTrack]
  · split
    · simp [drumTrack]
    · rfl

omit [Scalar α] in
theorem tracksNamed_head? (s : Score α) (name : String) :
    (s.sections.flatMap (tracksNamed name)).head? = s.tracks.find? (·.name == name) := by
  unfold Score.tracks
  rw [← List.head?_filter, List.filter_flatMap]
  rfl

/-- The melodic track of a name starts with the sound of the first track of that name. -/
theorem instrumentTrack_setup (h : s.tracks.find? (·.name == name) = some first) (channel : Nat) :
    (instrumentTrack v options s channel name).2.program
        = some (v.melodicProgram first.instrument) ∧
      (instrumentTrack v options s channel name).1.cues.filter (·.rank == .setup)
        = setupCue (programChange channel (Scalar.truncate (v.melodicProgram first.instrument)))
          :: if options.mixer then mixerCues channel first.volume first.pan else [] := by
  -- notes rank behind the setup, so the filter leaves nothing of them
  have hnotes : (s.sections.flatMap fun part => (tracksNamed name part).flatMap
      (trackCues v options.ppq channel part.startBeat)).filter (·.rank == .setup) = [] := by
    rw [List.filter_eq_nil_iff]
    intro cue hcue
    obtain ⟨part, _, hpart⟩ := List.mem_flatMap.mp hcue
    obtain ⟨t, _, ht⟩ := List.mem_flatMap.mp hpart
    obtain ⟨_, _, _, _, hnote⟩ := mem_trackCues ht
    simp only [noteCues, List.mem_cons, List.not_mem_nil, or_false] at hnote
    rcases hnote with rfl | rfl
    · exact Bool.false_ne_true
    · exact Bool.false_ne_true
  unfold instrumentTrack
  dsimp only
  rw [tracksNamed_head?, h, List.filter_append, hnotes]
  refine ⟨rfl, ?_⟩
  cases options.mixer <;> rfl

end Midi

end LeadSheet
