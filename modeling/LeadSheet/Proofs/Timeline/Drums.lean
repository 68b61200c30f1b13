import LeadSheet.Proofs.Midi.Pickup
import LeadSheet.Proofs.Timeline.Channels

/-!
# The volume of the drums

Every section may have drums of its own, but the drums have one volume. The channel plan takes it
from the first drum track, whether it is struck or not (`Score.plannedDrums?`), and a file from the
first one that is struck (`Score.struckDrums?`). So a section with silent drums in front of the
others decides how loud the drums are played, but not how loud they are written
(`volume_of_silentIntro`). Where the first drum track is struck the two are the same
(`volume_of_drums`).

A file has one message that sets the volume of the channel of the drums: no melodic track is on that
channel, and no note is such a message.
-/

namespace LeadSheet

/-! ## Drum tracks -/

section

variable {α : Type}

/-- The first drum track, which the channel plan looks at. -/
def Score.plannedDrums? (s : Score α) : Option (DrumTrack α) := s.sections.findSome? (·.drums)

/-- The first drum track with hits, which a file is written from. -/
def Score.struckDrums? (s : Score α) : Option (DrumTrack α) :=
  s.sections.findSome? fun part => part.drums.filter fun drums => !drums.hits.isEmpty

/-- A score with hits has a drum track with hits. -/
theorem Score.exists_struckDrums {s : Score α} (h : s.hasDrumHits = true) :
    ∃ struck, s.struckDrums? = some struck := by
  obtain ⟨part, hpart, hhits⟩ := List.any_eq_true.mp h
  refine Option.isSome_iff_exists.mp (List.findSome?_isSome_iff.mpr ⟨part, hpart, ?_⟩)
  unfold Section.hasDrumHits at hhits
  cases hdrums : part.drums with
  | none =>
    rw [hdrums] at hhits
    cases hhits
  | some drums =>
    rw [hdrums] at hhits
    rw [Option.filter_some, if_pos hhits]
    rfl

/-- The first drum track is not behind the first one with hits, and is that one if it has any. -/
theorem Score.exists_plannedDrums {s : Score α} {struck : DrumTrack α}
    (h : s.struckDrums? = some struck) :
    ∃ planned, s.plannedDrums? = some planned ∧ (planned.hits ≠ [] → struck = planned) := by
  unfold Score.struckDrums? at h
  unfold Score.plannedDrums?
  generalize s.sections = sections at h ⊢
  -- the first section with drums settles it; up to there neither search has found anything
  induction sections with
  | nil => cases h
  | cons part sections ih =>
    rw [List.findSome?_cons] at h ⊢
    cases hdrums : part.drums with
    | none =>
      rw [hdrums, Option.filter_none] at h
      exact ih h
    | some planned =>
      refine ⟨planned, rfl, fun hhits => ?_⟩
      rw [hdrums, Option.filter_some, if_pos (by simpa using hhits)] at h
      exact (Option.some.inj h).symm

theorem drumParts_head? (s : Score α) :
    (Midi.drumParts s).head?.map Prod.snd = s.struckDrums? := by
  unfold Midi.drumParts Score.struckDrums?
  rw [List.head?_filterMap, List.map_findSome?]
  congr 1
  funext part
  cases hdrums : part.drums with
  | none => simp [hdrums]
  | some drums => by_cases hempty : drums.hits = [] <;> simp [hdrums, hempty, Option.filter]

end

variable {α : Type} [Scalar α]

/-- The channel plan has one entry for drums, with the volume of the first drum track. -/
theorem filter_percussion {s : Score α} (v : Vocabulary α) (h : s.hasDrumHits = true)
    {planned : DrumTrack α} (hplanned : s.plannedDrums? = some planned) :
    ∃ a, (assignChannels v s).filter (·.percussion) = [a] ∧ a.volume = planned.volume := by
  refine ⟨drumAssignment s, ?_, ?_⟩
  · rw [assignChannels, if_pos h, List.filter_append]
    refine congrArg (· ++ _) (List.filter_eq_nil_iff.mpr fun a ha => ?_)
    obtain ⟨i, _, rfl⟩ := List.mem_mapIdx.mp ha
    exact Bool.false_ne_true
  · unfold Score.plannedDrums? at hplanned
    rw [drumAssignment, hplanned]
    rfl

namespace Midi

/-! ## Messages that set a volume -/

/-- The volume that a message sets on a channel. -/
def volume? (channel : Nat) : List UInt8 → Option UInt8
  | [first, controller, value] =>
    if first = status 0xB0 channel ∧ controller = dataByte volumeController then some value
    else none
  | _ => none

/-- The volumes that are set on a channel by cues, in their order. -/
def cueVolumes (channel : Nat) (cues : List (Cue α)) : List UInt8 :=
  cues.filterMap fun c => volume? channel c.bytes

/-- The volumes that are set on a channel by events, in their order. -/
def eventVolumes (channel : Nat) (events : List FileEvent) : List UInt8 :=
  events.filterMap fun e => volume? channel e.body.bytes

/-- The volumes that a file sets on a channel, track by track. -/
def File.volumes (channel : Nat) (file : File) : List UInt8 :=
  file.tracks.flatMap fun t => eventVolumes channel t.events

theorem volume?_eq_none {channel : Nat} {first : UInt8} (h : first ≠ status 0xB0 channel)
    (rest : List UInt8) : volume? channel (first :: rest) = none := by
  unfold volume?
  split
  · next heq =>
    obtain ⟨rfl, -⟩ := List.cons.inj heq
    exact if_neg fun hboth => h hboth.1
  · rfl

/-- A message of another kind, or on another channel, sets no volume. -/
theorem volume?_status {kind channel other : Nat} (hlow : kind % 16 = 0) (hhigh : kind ≤ 0xF0)
    (h : kind ≠ 0xB0 ∨ other % 16 ≠ channel % 16) (rest : List UInt8) :
    volume? channel (status kind other :: rest) = none := by
  refine volume?_eq_none (fun heq => ?_) rest
  have hnat := congrArg UInt8.toNat heq
  rw [toNat_status hhigh, toNat_status (by decide)] at hnat
  -- the bytes differ in the high four bits or in the low ones
  omega

/-- What is no message on a channel sets no volume. -/
theorem volume?_metadata (channel : Nat) (kind : Option UInt8) (data : List UInt8) :
    volume? channel (EventBody.metadata kind data).bytes = none := by
  refine volume?_eq_none (fun heq => ?_) _
  have hnat := congrArg UInt8.toNat heq
  have hbyte : (0xFF : UInt8).toNat = 255 := rfl
  rw [hbyte, toNat_status (by decide)] at hnat
  omega

/-- Notes set no volume. -/
theorem volume?_of_mem_noteCues {channel other : Nat} {ppq pitch start duration velocity : α}
    {cue : Cue α} (h : cue ∈ noteCues ppq other pitch start duration velocity) :
    volume? channel cue.bytes = none := by
  simp only [noteCues, List.mem_cons, List.not_mem_nil, or_false] at h
  rcases h with rfl | rfl
  · exact volume?_status (by decide) (by decide) (.inl (by decide)) _
  · exact volume?_status (by decide) (by decide) (.inl (by decide)) _

/-- The cues of a track on another channel set no volume on this one. -/
theorem Cue.Made.volume?_eq {ppq : α} {channel other : Nat} {cue : Cue α}
    (h : cue.Made ppq other) (hne : other % 16 ≠ channel % 16) :
    volume? channel cue.bytes = none := by
  cases h with
  | note hcue => exact volume?_of_mem_noteCues hcue
  | mixer hcue =>
    simp only [mixerCues, List.mem_cons, List.not_mem_nil, or_false] at hcue
    rcases hcue with rfl | rfl
    · exact volume?_status (by decide) (by decide) (.inr hne) _
    · exact volume?_status (by decide) (by decide) (.inr hne) _
  | program number => exact volume?_status (by decide) (by decide) (.inl (by decide)) _

/-- The settings of a mixer set one volume. -/
theorem cueVolumes_mixerCues (channel : Nat) (volume pan : α) :
    cueVolumes channel (mixerCues channel volume pan) = [dataByte (Scalar.sevenBit volume)] := by
  have hpan : dataByte panController ≠ dataByte volumeController := by decide
  simp [cueVolumes, mixerCues, setupCue, controlChange, volume?, hpan]

/-! ## The volume that is written -/

section

variable {v : Vocabulary α} {options : ExportOptions α} {s : Score α}

/-- The track of the drums sets the volume of the first drum track with hits. -/
theorem cueVolumes_drumTrack (hmixer : options.mixer = true) {struck : DrumTrack α}
    (hstruck : s.struckDrums? = some struck) :
    cueVolumes drumChannel (drumTrack v options s).1.cues
      = [dataByte (Scalar.sevenBit struck.volume)] := by
  rw [← drumParts_head?, Option.map_eq_some_iff] at hstruck
  obtain ⟨⟨part, _⟩, hhead, rfl⟩ := hstruck
  unfold cueVolumes drumTrack
  dsimp only
  rw [hhead, List.filterMap_append]
  dsimp only
  rw [if_pos hmixer]
  refine (congrArg (· ++ _) (List.filterMap_eq_nil_iff.mpr fun cue hcue => ?_)).trans
    (cueVolumes_mixerCues drumChannel _ _)
  obtain ⟨_, _, hhit⟩ := List.mem_flatMap.mp hcue
  obtain ⟨hit, _, hnote⟩ := List.mem_flatMap.mp hhit
  exact volume?_of_mem_noteCues hnote

theorem cueVolumes_instrumentTrack (index : Nat) (name : String) :
    cueVolumes drumChannel (instrumentTrack v options s (melodicChannel index) name).1.cues
      = [] := by
  refine List.filterMap_eq_nil_iff.mpr fun cue hcue => (made_instrumentTrack hcue).volume?_eq ?_
  have hlt := melodicChannel_lt index
  have hne := melodicChannel_ne_drumChannel index
  rw [drumChannel] at hne ⊢
  omega

/-- **One volume is written for the drums**, that of the first drum track with hits. -/
theorem volumes_of_soundTracks (hhits : s.hasDrumHits = true) (hmixer : options.mixer = true)
    {struck : DrumTrack α} (hstruck : s.struckDrums? = some struck) :
    ((soundTracks v options s).flatMap fun sound => cueVolumes drumChannel sound.1.cues)
      = [dataByte (Scalar.sevenBit struck.volume)] := by
  rw [soundTracks, if_pos hhits, List.flatMap_append, List.flatMap_singleton,
    cueVolumes_drumTrack hmixer hstruck]
  refine congrArg (· ++ _) (List.flatMap_eq_nil_iff.mpr fun sound hsound => ?_)
  obtain ⟨index, _, rfl⟩ := List.mem_mapIdx.mp hsound
  exact cueVolumes_instrumentTrack index _

end

/-! ## The volume that is read -/

/-- Neither the name of a track nor its end is a message on a channel. -/
theorem eventVolumes_writtenEvents (channel : Nat) (names : Bool) (name : String)
    (events : List FileEvent) :
    eventVolumes channel (writtenEvents names name events) = eventVolumes channel events := by
  unfold eventVolumes writtenEvents nameEvents
  have hend : [endEvent (lastTick 0 events)].filterMap (fun e => volume? channel e.body.bytes)
      = [] := by
    simp only [List.filterMap_cons, endEvent, volume?_metadata, List.filterMap_nil]
  rw [List.filterMap_append, List.filterMap_append, hend, List.append_nil]
  split
  · simp only [List.filterMap_cons, volume?_metadata, List.filterMap_nil, List.nil_append]
  · rfl

theorem eventVolumes_tempoEvents (channel : Nat) (tempo : Float) :
    eventVolumes channel (tempoEvents tempo) = [] := by
  simp only [eventVolumes, tempoEvents, endEvent, List.filterMap_cons, volume?_metadata,
    List.filterMap_nil]

/-- A track that was read sets the volumes of the cues it was written from. -/
theorem FileTrack.HoldsLate.eventVolumes_perm {names : Bool} {channel other : Nat}
    {track : CueTrack Float} {t : FileTrack} (h : t.HoldsLate names other track) :
    (cueVolumes channel track.cues).Perm (eventVolumes channel t.events) := by
  obtain ⟨order, events, hsort, hlate, -, hwritten⟩ := h
  have hbytes : order.map (·.bytes) = events.map (·.body.bytes) := by
    rw [← List.forall₂_eq_eq_eq, List.forall₂_map_left_iff, List.forall₂_map_right_iff]
    exact hlate.imp fun _ _ h => h.bytes_eq.symm
  have hevents := congrArg (List.filterMap (volume? channel)) hbytes
  rw [List.filterMap_map, List.filterMap_map] at hevents
  have hperm : (cueVolumes channel track.cues).Perm (cueVolumes channel order) :=
    hsort.perm.filterMap _
  rw [hwritten, eventVolumes_writtenEvents]
  exact hperm.trans (.of_eq hevents)

/-- Tracks that were read set the volumes of the tracks they were written from. -/
theorem eventVolumes_flatMap_perm {names : Bool} (channel : Nat)
    {sounds : List (CueTrack Float × TrackInfo Float)} {tracks : List FileTrack}
    (h : List.Forall₂ (fun sound t => t.HoldsLate names sound.2.channel sound.1) sounds tracks) :
    (sounds.flatMap fun sound => cueVolumes channel sound.1.cues).Perm
      (tracks.flatMap fun t => eventVolumes channel t.events) := by
  induction h with
  | nil => exact .nil
  | cons ht _ ih => exact ht.eventVolumes_perm.append ih

/-- A file sets the volumes of the cues it was written from. -/
theorem volumes_of_readBack {v : Vocabulary Float} {options : ExportOptions Float}
    {s : Score Float} {file : File} (hread : readBack? v options s = some file)
    (hnear : ∀ sound ∈ soundTracks v options s, sound.1.Near options.trackNames)
    (hcount : (soundTracks v options s).length + 1 < 2 ^ 16) (channel : Nat) :
    ((soundTracks v options s).flatMap fun sound => cueVolumes channel sound.1.cues).Perm
      (file.volumes channel) := by
  have htail := holdsLate_of_readBack hread hnear
  rw [Nat.mod_eq_of_lt hcount, Nat.add_sub_cancel, List.take_length] at htail
  refine (eventVolumes_flatMap_perm channel htail).trans (.of_eq ?_)
  unfold File.volumes
  -- the first track is that of the tempo, which sets no volume
  cases htracks : file.tracks with
  | nil => rfl
  | cons first sounds =>
    have hfirst := head?_of_readBack hread (by simp [htracks])
    rw [htracks, List.head?_cons, Option.some.injEq] at hfirst
    rw [hfirst, List.flatMap_cons, eventVolumes_tempoEvents, List.nil_append, List.tail_cons]

/-- **The volume of the drums.** A score with drum hits has a first drum track, and a first drum
track with hits, which is the same one if the first one has hits. The one entry for drums in the
channel plan has the volume of the former. The one volume that is written for the channel of the
drums is that of the latter, and it is the one that is read if the file can be read and its tracks
have no long waits. The two agree exactly if the volumes of the two tracks are the same as values of
seven bits. -/
theorem volume_of_drums (v : Vocabulary Float) {options : ExportOptions Float} {s : Score Float}
    (hhits : s.hasDrumHits = true) (hmixer : options.mixer = true) :
    ∃ planned struck a written, s.plannedDrums? = some planned ∧ s.struckDrums? = some struck ∧
      (planned.hits ≠ [] → struck = planned) ∧
      (assignChannels v s).filter (·.percussion) = [a] ∧ a.volume = planned.volume ∧
      ((soundTracks v options s).flatMap fun sound => cueVolumes drumChannel sound.1.cues)
        = [written] ∧
      written.toNat = Scalar.sevenBit struck.volume ∧
      (written.toNat = Scalar.sevenBit a.volume ↔
        Scalar.sevenBit struck.volume = Scalar.sevenBit planned.volume) ∧
      ∀ file, readBack? v options s = some file →
        (∀ sound ∈ soundTracks v options s, sound.1.Near options.trackNames) →
        (soundTracks v options s).length + 1 < 2 ^ 16 → file.volumes drumChannel = [written] := by
  obtain ⟨struck, hstruck⟩ := Score.exists_struckDrums hhits
  obtain ⟨planned, hplanned, hsame⟩ := Score.exists_plannedDrums hstruck
  obtain ⟨a, hplan, hvolume⟩ := filter_percussion v hhits hplanned
  have hwritten := volumes_of_soundTracks (v := v) hhits hmixer hstruck
  refine ⟨planned, struck, a, _, hplanned, hstruck, hsame, hplan, hvolume, hwritten,
    toNat_dataByte_sevenBit _, ?_, fun file hread hnear hcount => ?_⟩
  · rw [toNat_dataByte_sevenBit, hvolume]
  · have hperm := volumes_of_readBack hread hnear hcount drumChannel
    rw [hwritten] at hperm
    exact (List.singleton_perm.mp hperm).symm

/-- Two sections with drums of different volumes, both of which are struck. -/
def twoKits : Score Float where
  title := "Two kits"
  tempo := 120
  key := "C"
  timeSignature := "4/4"
  sections :=
    [{ name := "Rest", bars := 1, startBar := 0, key := none, tempo := none
       tracks := [⟨"Lead", "piano", [⟨60, 0, 1, 1⟩], [], 0.7, 0.5⟩], drums := none },
     { name := "Verse", bars := 1, startBar := 1, key := none, tempo := none, tracks := []
       drums := some ⟨"Drums", [⟨"kick", 0, 1⟩], 0.6⟩ },
     { name := "Chorus", bars := 1, startBar := 2, key := none, tempo := none, tracks := []
       drums := some ⟨"Drums", [⟨"kick", 0, 1⟩, ⟨"snare", 1, 1⟩], 0.8⟩ }]

theorem volume_of_drums_twoKits :
    ∃ file a, readBack? Vocabulary.standard .standard twoKits = some file ∧
      (assignChannels Vocabulary.standard twoKits).filter (·.percussion) = [a] ∧
      ∃ written, file.volumes drumChannel = [written] ∧
        written.toNat = Scalar.sevenBit a.volume := by
  have hread : (readBack? Vocabulary.standard .standard twoKits).isSome = true := by
    decide +kernel
  have hstruck : (twoKits.plannedDrums?.all fun d => decide (d.hits ≠ [])) = true := by
    decide +kernel
  obtain ⟨file, hfile⟩ := Option.isSome_iff_exists.mp hread
  obtain ⟨planned, struck, a, written, hplanned, -, hsame, hplan, -, -, -, hagree, hfiles⟩ :=
    volume_of_drums Vocabulary.standard (by decide +kernel : twoKits.hasDrumHits = true)
      (rfl : ExportOptions.standard.mixer = true)
  rw [hplanned, Option.all_some, decide_eq_true_eq] at hstruck
  refine ⟨file, a, hfile, hplan, written,
    hfiles file hfile (by decide +kernel) (by decide +kernel), hagree.mpr ?_⟩
  rw [hsame hstruck]

/-- A section with drums that are not struck, and a louder one with drums that are. -/
def silentIntro : Score Float where
  title := "Silent intro"
  tempo := 120
  key := "C"
  timeSignature := "4/4"
  sections :=
    [{ name := "A", bars := 1, startBar := 0, key := none, tempo := none, tracks := []
       drums := some ⟨"Drums", [], 0.6⟩ },
     { name := "B", bars := 1, startBar := 0, key := none, tempo := none, tracks := []
       drums := some ⟨"Drums", [⟨"kick", 0, 0.8⟩], 0.8⟩ }]

/-- **Drums that are not struck decide how loud the others are played**, but not how loud they are
written: the plan says 76, and the file 101. -/
theorem volume_of_silentIntro :
    silentIntro.hasDrumHits = true ∧
    ((assignChannels Vocabulary.standard silentIntro).filter (·.percussion)).map
      (fun a => Scalar.sevenBit a.volume) = [76] ∧
    ∃ file, readBack? Vocabulary.standard .standard silentIntro = some file ∧
      file.volumes drumChannel = [101] ∧
      ¬ ∃ a ∈ assignChannels Vocabulary.standard silentIntro, a.percussion = true ∧
        file.volumes drumChannel = [dataByte (Scalar.sevenBit a.volume)] := by
  have hread : (readBack? Vocabulary.standard .standard silentIntro).any (fun file =>
      decide (file.volumes drumChannel = [101] ∧
        ¬ ∃ a ∈ assignChannels Vocabulary.standard silentIntro, a.percussion = true ∧
          file.volumes drumChannel = [dataByte (Scalar.sevenBit a.volume)])) = true := by
    decide +kernel
  refine ⟨by decide +kernel, by decide +kernel, ?_⟩
  obtain ⟨file, hfile, hvolumes⟩ := (Option.any_eq_true _ _).mp hread
  exact ⟨file, hfile, of_decide_eq_true hvolumes⟩

end Midi

end LeadSheet
