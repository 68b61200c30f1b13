import LeadSheet.Proofs.Sheet.Markers
import LeadSheet.Proofs.Sheet.Saved
import LeadSheet.Proofs.Timeline.Channels

/-!
# Names and instruments of tracks that were read

A score that was loaded may give one name to two instruments, or call a track like the drums, and
its events are then on channels that are not theirs. A score that was read from a sheet does not.
Both the name and the instrument of a track come from the label of its line, and differ from it in
the case of letters only, so each of the two tells what the other one is; and a label that would
give the name of the drums is that of a drum line. So the plan has one entry for each instrument,
and all events of tracks are on the channel of their instrument (`instruments_of_read`).
-/

namespace LeadSheet

/-! ## Labels of tracks -/

namespace Sheet

/-- A word that labels the line of a track: of ASCII letters, digits and underscores, and in no case
the label of the drums. -/
structure LabelsTrack (word : List Char) : Prop where
  letters : ∀ c ∈ word, Text.isWordChar c = true
  notDrums : Text.toUpper word ≠ "DRUMS".toList

theorem Line.isWordChar_of_labelled? {line word pattern : List Char}
    (h : Line.labelled? line = some (word, pattern)) : ∀ c ∈ word, Text.isWordChar c = true := by
  have hword : word = line.takeWhile Text.isWordChar := by
    unfold Line.labelled? at h
    dsimp only at h
    split at h
    · cases h
    · split at h
      · obtain ⟨text, -, heq⟩ := Option.map_eq_some_iff.mp h
        exact (congrArg Prod.fst heq).symm
      · cases h
  rw [hword]
  exact fun c hc => List.mem_takeWhile_imp hc

theorem Line.labelsTrack_of_ofText {line word pattern : List Char}
    (h : Line.ofText line = .instrument word pattern) : LabelsTrack word := by
  unfold Line.ofText at h
  split at h
  · cases h
  · next label text hlabelled =>
    dsimp only at h
    split_ifs at h with hdrums
    cases h
    refine ⟨Line.isWordChar_of_labelled? hlabelled, fun heq => hdrums ?_⟩
    rw [heq, String.ofList_toList]

/-- Title case changes the case of letters and nothing else. -/
theorem titleCase.map_toLower_go {text : List Char} (h : ∀ c ∈ text, c.toNat < 0x80)
    (behindLetter : Bool) :
    (titleCase.go behindLetter text).map Char.toLower = text.map Char.toLower := by
  induction text generalizing behindLetter with
  | nil => rfl
  | cons c text ih =>
    obtain ⟨hc, htext⟩ := List.forall_mem_cons.mp h
    have hupper : Text.toUpper [c] = [c.toUpper] :=
      Text.toUpper_of_ascii fun d hd => List.mem_singleton.mp hd ▸ hc
    rw [titleCase.go, List.map_append, ih htext, hupper]
    -- the upper case of the letter, if it was taken, is lost again
    split
    · rw [List.map_singleton, Text.toLower_toUpper hc]
      rfl
    · rfl

namespace LabelsTrack

variable {word other : List Char}

theorem ascii (h : LabelsTrack word) : ∀ c ∈ word, c.toNat < 0x80 := fun c hc =>
  Text.ascii_of_isWordChar (h.letters c hc)

theorem map_toLower_titleCase (h : LabelsTrack word) :
    (titleCase word).map Char.toLower = Text.toLower word := by
  have hlower : Text.toLower word = word.map Char.toLower := Text.toLower_of_ascii h.ascii
  have hascii : ∀ c ∈ Text.toLower word, c.toNat < 0x80 := by
    rw [hlower, List.forall_mem_map]
    exact fun c hc => Text.ascii_toLower (h.ascii c hc)
  rw [titleCase, titleCase.map_toLower_go hascii, hlower, List.map_map]
  exact List.map_congr_left fun c hc => Text.toLower_toLower (h.ascii c hc)

theorem map_toUpper_toLower (h : LabelsTrack word) :
    (Text.toLower word).map Char.toUpper = Text.toUpper word := by
  rw [Text.toLower_of_ascii h.ascii, Text.toUpper_of_ascii h.ascii, List.map_map]
  exact List.map_congr_left fun c hc => Text.toUpper_toLower (h.ascii c hc)

/-- Two labels give one name if and only if they give one instrument. -/
theorem titleCase_eq_iff (h : LabelsTrack word) (hother : LabelsTrack other) :
    titleCase word = titleCase other ↔ Text.toLower word = Text.toLower other := by
  constructor
  · intro heq
    rw [← h.map_toLower_titleCase, heq, hother.map_toLower_titleCase]
  · intro heq
    rw [titleCase, heq, titleCase]

theorem toLower_ne_drums (h : LabelsTrack word) : Text.toLower word ≠ "drums".toList := by
  intro heq
  apply h.notDrums
  rw [← h.map_toUpper_toLower, heq]
  decide

theorem titleCase_ne_drums (h : LabelsTrack word) : titleCase word ≠ "Drums".toList := by
  intro heq
  apply h.toLower_ne_drums
  rw [← h.map_toLower_titleCase, heq]
  decide

end LabelsTrack

/-! ## Tracks of a sheet -/

section

variable {α : Type} {v : Vocabulary α}

/-- A track as a label names it, with an instrument that is not the drum kit. -/
structure NamedBy (v : Vocabulary α) (word : List Char) (t : Track α) : Prop
    extends LabelsTrack word where
  name : t.name = String.ofList (titleCase word)
  instrument : t.instrument = String.ofList (Text.toLower word)
  melodic : v.voice t.instrument ≠ .percussion

namespace NamedBy

variable {word other : List Char} {t u : Track α}

theorem name_eq_iff (ht : NamedBy v word t) (hu : NamedBy v other u) :
    t.name = u.name ↔ t.instrument = u.instrument := by
  rw [ht.name, hu.name, ht.instrument, hu.instrument, String.ofList_inj, String.ofList_inj]
  exact ht.titleCase_eq_iff hu.toLabelsTrack

theorem name_ne_drums (ht : NamedBy v word t) : t.name ≠ Default.drumTrackName := by
  intro heq
  apply ht.titleCase_ne_drums
  rw [← String.toList_ofList (l := titleCase word), ← ht.name, heq]
  rfl

theorem instrument_ne_drums (ht : NamedBy v word t) : t.instrument ≠ "drums" := by
  intro heq
  apply ht.toLower_ne_drums
  rw [← String.toList_ofList (l := Text.toLower word), ← ht.instrument, heq]

end NamedBy

/-- The tracks are as the labels of their lines name them. -/
def TracksNamed (v : Vocabulary α) (tracks : List (Track α)) : Prop :=
  ∀ t ∈ tracks, ∃ word, NamedBy v word t

variable [Scalar α]

/-- A line adds no track but one that its label names. -/
theorem TracksNamed.addLine {body : Body α} (h : TracksNamed v body.tracks) (name : String)
    (bars : Nat) (line : List Char) :
    TracksNamed v (body.addLine v name bars (Line.ofText line)).tracks := by
  cases hline : Line.ofText line with
  | drums pattern => exact h
  | header field => exact h
  | unrecognized text => exact h
  | instrument word pattern =>
    show TracksNamed v (body.addTrack v name bars word pattern).tracks
    unfold Body.addTrack
    dsimp only
    split
    · exact h
    · next program hvoice =>
      intro t ht
      rcases List.mem_append.mp ht with hbefore | hnew
      · exact h t hbefore
      · obtain rfl := List.mem_singleton.mp hnew
        refine ⟨word, Line.labelsTrack_of_ofText hline, rfl, rfl, ?_⟩
        intro hkit
        cases hvoice.symm.trans hkit

theorem tracksNamed_readSection (key : String) (tempo : α) (piece : List Char) :
    TracksNamed v (readSection v key tempo piece).read.tracks := by
  unfold readSection
  dsimp only
  rw [List.foldl_map]
  refine List.foldlRecOn (motive := fun body : Body α => TracksNamed v body.tracks) _ _ ?_ ?_
  · exact fun t ht => absurd ht List.not_mem_nil
  · exact fun body hbody line _ => hbody.addLine _ _ line

theorem tracksNamed_of_outcome {text : String} {s : Score α}
    (h : (read v text).outcome = .ok s) : TracksNamed v s.tracks := by
  intro t ht
  obtain ⟨part, hpart, ht⟩ := List.mem_flatMap.mp ht
  rw [sections_of_outcome h] at hpart
  obtain ⟨s', hs', startBar, rfl⟩ := exists_of_mem_placeFrom hpart
  obtain ⟨piece, -, rfl⟩ := List.mem_map.mp hs'
  exact tracksNamed_readSection s.key s.tempo piece t ht

end

end Sheet

/-! ## The entry of an instrument -/

section

variable {α : Type} [Scalar α] {s : Score α} {t : Track α}

omit [Scalar α] in
theorem firstOfEachName_subset (tracks : List (Track α)) : firstOfEachName tracks ⊆ tracks := by
  unfold firstOfEachName
  refine List.foldlRecOn (motive := (· ⊆ tracks)) _ _ (List.nil_subset _) ?_
  intro kept hkept t ht
  split
  · exact hkept
  · exact List.append_subset.mpr ⟨hkept, List.cons_subset.mpr ⟨ht, List.nil_subset _⟩⟩

/-- The entries of an instrument are the melodic ones of a name, if the two belong together. -/
theorem filter_instrument_assignChannels (w : Vocabulary α)
    (hnames : ∀ u ∈ s.tracks, u.name = t.name ↔ u.instrument = t.instrument)
    (hdrums : t.instrument ≠ "drums") :
    (assignChannels w s).filter (·.instrument == t.instrument)
      = (assignChannels w s).filter fun a => a.track == t.name && !a.percussion := by
  refine List.filter_congr fun a ha => ?_
  unfold assignChannels at ha
  rcases List.mem_append.mp ha with hmelodic | hkit
  · obtain ⟨index, hindex, rfl⟩ := List.mem_mapIdx.mp hmelodic
    have hmem := firstOfEachName_subset s.tracks (List.getElem_mem hindex)
    show (_ == t.instrument) = (_ == t.name && !false)
    rw [Bool.not_false, Bool.and_true, Bool.eq_iff_iff, beq_iff_eq, beq_iff_eq]
    exact (hnames _ hmem).symm
  · -- no track has the instrument under which the plan lists the drums
    split at hkit
    · obtain rfl := List.mem_singleton.mp hkit
      show ("drums" == t.instrument) = (_ && !true)
      rw [Bool.not_true, Bool.and_false]
      exact beq_false_of_ne hdrums.symm
    · exact absurd hkit List.not_mem_nil

/-- An instrument has one entry in the plan, and the name of its tracks has the channel of that
entry, if names and instruments belong together and no track is called like the drums. -/
theorem exists_entry_of_instrument (w : Vocabulary α)
    (hnames : ∀ u ∈ s.tracks, u.name = t.name ↔ u.instrument = t.instrument)
    (hdrums : t.instrument ≠ "drums") (hname : t.name ≠ Default.drumTrackName)
    (ht : t ∈ s.tracks) :
    ∃ a, (assignChannels w s).filter (·.instrument == t.instrument) = [a] ∧
      a.channel ≠ drumChannel ∧ channelOf (assignChannels w s) t.name = a.channel := by
  obtain ⟨a, hentry, hmelodic, hchannel⟩ := channelOf_assignChannels w ht
  rw [if_neg fun h => hname h.1] at hchannel
  exact ⟨a, (filter_instrument_assignChannels w hnames hdrums).trans hentry, hmelodic, hchannel⟩

theorem Timeline.of_mem_melodicEvents {w : Vocabulary α} {e : TimedEvent α}
    (h : (t, e) ∈ melodicEvents w s) :
    t ∈ s.tracks ∧ e.track = t.name ∧ e.channel = channelOf (assignChannels w s) t.name := by
  obtain ⟨part, hpart, h⟩ := List.mem_flatMap.mp h
  obtain ⟨u, hu, h⟩ := List.mem_flatMap.mp h
  obtain ⟨_, hevent, heq⟩ := List.mem_map.mp h
  obtain ⟨rfl, rfl⟩ := Prod.mk.inj heq
  exact ⟨List.mem_flatMap.mpr ⟨part, hpart, hu⟩, of_mem_trackEvents hevent⟩

end

/-! ## Sheets -/

namespace Sheet

open Timeline

/-- **Names of tracks identify instruments.** In a score that was read, two tracks have the same
name if and only if they have the same instrument; none is called like the drums, and none has an
instrument that stands for the drum kit. The events of its timeline are those of its tracks and
those of drum hits, whatever vocabulary it is laid out with. An event of a track has the name of the
track and is on the channel of the one entry that the plan has for the instrument of the track; it
is never on the channel of the drums. -/
theorem instruments_of_read {α : Type} [Scalar α] (v w : Vocabulary α) {text : String} {s : Score α}
    (h : (read v text).outcome = .ok s) :
    (∀ t ∈ s.tracks, ∀ u ∈ s.tracks, t.name = u.name ↔ t.instrument = u.instrument) ∧
    (∀ t ∈ s.tracks, t.name ≠ Default.drumTrackName ∧ v.voice t.instrument ≠ .percussion) ∧
    (ofScore w s).events.Perm ((melodicEvents w s).map Prod.snd ++ drumEvents w s) ∧
    ∀ t e, (t, e) ∈ melodicEvents w s →
      t ∈ s.tracks ∧ e.track = t.name ∧ e.channel ≠ drumChannel ∧
      ∃ a, (ofScore w s).channels.filter (·.instrument == t.instrument) = [a] ∧
        e.channel = a.channel := by
  have hnamed := tracksNamed_of_outcome h
  have hnames : ∀ t ∈ s.tracks, ∀ u ∈ s.tracks,
      t.name = u.name ↔ t.instrument = u.instrument := by
    intro t ht u hu
    obtain ⟨word, htrack⟩ := hnamed t ht
    obtain ⟨other, hother⟩ := hnamed u hu
    exact htrack.name_eq_iff hother
  refine ⟨hnames, ?_, ofScore_perm w s, ?_⟩
  · intro t ht
    obtain ⟨word, htrack⟩ := hnamed t ht
    exact ⟨htrack.name_ne_drums, htrack.melodic⟩
  · intro t e hevent
    obtain ⟨ht, htrack, hchannel⟩ := of_mem_melodicEvents hevent
    obtain ⟨word, hword⟩ := hnamed t ht
    obtain ⟨a, hentry, hmelodic, hplan⟩ := exists_entry_of_instrument w
      (fun u hu => hnames u hu t ht) hword.instrument_ne_drums hword.name_ne_drums ht
    rw [hchannel, hplan]
    exact ⟨ht, htrack, hmelodic, a, hentry, rfl⟩

/-- A sheet with drums and two instruments, of which one has two lines. -/
def twoInstruments : List Char :=
  ("SECTION: A [1 bars]\nPIANO: C4(q)\nfrench_HORN: G3(h)\nDRUMS: kick(1,3)\n"
    ++ "SECTION: B [1 bars]\nPiano: E4(q)\n").toList

/-- The piano has one name and one instrument, in whatever case its lines are labelled. The drums
have hits, and none of the events of the three tracks is on their channel. -/
theorem instruments_of_read_twoInstruments :
    ∃ s, (read (Vocabulary.standard : Vocabulary Float) (String.ofList twoInstruments)).outcome
        = .ok s ∧
      s.tracks.map (·.name) = ["Piano", "French_Horn", "Piano"] ∧
      s.tracks.map (·.instrument) = ["piano", "french_horn", "piano"] ∧ s.hasDrumHits = true ∧
      (melodicEvents Vocabulary.standard s).length = 6 ∧
      ∀ t e, (t, e) ∈ melodicEvents Vocabulary.standard s → e.channel ≠ drumChannel := by
  have hread : (readCleaned (Vocabulary.standard : Vocabulary Float)
      (clean (repair twoInstruments))).outcome.toOption.any (fun s =>
        s.tracks.map (·.name) == ["Piano", "French_Horn", "Piano"] &&
        s.tracks.map (·.instrument) == ["piano", "french_horn", "piano"] && s.hasDrumHits &&
        (melodicEvents Vocabulary.standard s).length == 6) = true := by
    decide +kernel
  obtain ⟨s, hs, hscore⟩ := exists_of_outcome hread
  simp only [Bool.and_eq_true, beq_iff_eq] at hscore
  obtain ⟨⟨⟨hnames, hinstruments⟩, hhits⟩, hcount⟩ := hscore
  have hs := (outcome_read_ofList _ (by decide +kernel)).trans hs
  obtain ⟨-, -, -, hevents⟩ := instruments_of_read _ Vocabulary.standard hs
  refine ⟨s, hs, hnames, hinstruments, hhits, hcount, ?_⟩
  intro t e hevent
  obtain ⟨-, -, hchannel, -⟩ := hevents t e hevent
  exact hchannel

end Sheet

end LeadSheet
