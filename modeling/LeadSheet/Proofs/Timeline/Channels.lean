import LeadSheet.Proofs.Document.RoundTrip
import LeadSheet.Proofs.Sorting.Permutation
import LeadSheet.Proofs.Timeline.Sounds
import LeadSheet.Timeline.Compile

/-!
# Which channel an event is on

The channel plan gives melodic tracks the channels from 0 to 15 but for that of the drums, and gives
the drums theirs. The entries of the plan are then looked up by name, and the entry of the drums is
called like any other one: a melodic track that has its name is played on the channel of the drums
wherever the score has drum hits. No other event is led astray (`channel_of_events`).

All of this is about names and not about times, so that it holds of any numbers.
-/

namespace LeadSheet

variable {α : Type} [Scalar α]

/-! ## Looking up a name -/

/-- No melodic track has the channel of the drums. -/
theorem melodicChannel_ne_drumChannel (index : Nat) : melodicChannel index ≠ drumChannel := by
  unfold melodicChannel drumChannel
  dsimp only
  split_ifs <;> omega

omit [Scalar α] in
/-- The last entry of a name counts. -/
theorem channelOf_eq (plan : List (Assignment α)) (name : String) :
    channelOf plan name = ((plan.filter (·.track == name)).getLast?.map (·.channel)).getD 0 := by
  unfold channelOf
  rw [← List.head?_filter, List.filter_reverse, List.head?_reverse]
  cases (plan.filter (·.track == name)).getLast? <;> rfl

variable {s : Score α} {name : String} {first : Track α}

/-- The entries of the name of a track: one is melodic, and that of the drums may follow. -/
theorem filter_track_assignChannels (v : Vocabulary α)
    (h : s.tracks.find? (·.name == name) = some first) :
    ∃ index,
      (assignChannels v s).filter (fun a => a.track == name && !a.percussion)
        = [melodicAssignment v index first] ∧
      (assignChannels v s).filter (·.track == name)
        = melodicAssignment v index first
          :: if name = Default.drumTrackName ∧ s.hasDrumHits then [drumAssignment s] else [] := by
  obtain ⟨index, hmelodic⟩ := filter_assignChannels v h
  refine ⟨index, hmelodic, ?_⟩
  unfold assignChannels at hmelodic ⊢
  rw [List.filter_append] at hmelodic ⊢
  have hdrums : (if s.hasDrumHits then [drumAssignment s] else []).filter
      (fun a => a.track == name && !a.percussion) = [] := by
    split <;> simp [drumAssignment]
  -- among melodic entries the test for percussion changes nothing
  have hentries : ((firstOfEachName s.tracks).mapIdx (melodicAssignment v)).filter
      (fun a => a.track == name && !a.percussion)
      = ((firstOfEachName s.tracks).mapIdx (melodicAssignment v)).filter (·.track == name) := by
    refine List.filter_congr fun a ha => ?_
    obtain ⟨i, _, rfl⟩ := List.mem_mapIdx.mp ha
    simp [melodicAssignment]
  rw [hdrums, List.append_nil, hentries] at hmelodic
  rw [hmelodic, List.singleton_append]
  congr 1
  by_cases hhits : s.hasDrumHits = true
  · by_cases hname : name = Default.drumTrackName
    · simp [hhits, hname, drumAssignment]
    · simp [hhits, hname, Ne.symm hname, drumAssignment]
  · simp [hhits]

/-- The channel of the name of a track. -/
theorem channelOf_assignChannels (v : Vocabulary α) {t : Track α} (ht : t ∈ s.tracks) :
    ∃ a, (assignChannels v s).filter (fun a => a.track == t.name && !a.percussion) = [a] ∧
      a.channel ≠ drumChannel ∧
      channelOf (assignChannels v s) t.name
        = if t.name = Default.drumTrackName ∧ s.hasDrumHits then drumChannel else a.channel := by
  obtain ⟨first, hfirst⟩ := Option.isSome_iff_exists.mp
    (List.find?_isSome.mpr ⟨t, ht, BEq.rfl⟩ : (s.tracks.find? (·.name == t.name)).isSome = true)
  obtain ⟨index, hmelodic, hentries⟩ := filter_track_assignChannels v hfirst
  refine ⟨_, hmelodic, melodicChannel_ne_drumChannel index, ?_⟩
  rw [channelOf_eq, hentries]
  split <;> rfl

/-! ## Events of tracks and of drums -/

namespace Timeline

/-- The events of the notes and chords of tracks, each with its track. -/
def melodicEvents (v : Vocabulary α) (s : Score α) : List (Track α × TimedEvent α) :=
  s.sections.flatMap fun part => part.tracks.flatMap fun t =>
    (trackEvents v s.tempo (secondsOf s.tempo part.startBeat)
      (channelOf (assignChannels v s) t.name) t).map (t, ·)

/-- The events of drum hits. -/
def drumEvents (v : Vocabulary α) (s : Score α) : List (TimedEvent α) :=
  s.sections.flatMap fun part => match part.drums with
    | some drums => drums.hits.flatMap (hitEvents v s.tempo (secondsOf s.tempo part.startBeat))
    | none => []

/-- A timeline holds the events of tracks and those of drums, and no other ones. -/
theorem ofScore_perm (v : Vocabulary α) (s : Score α) :
    (ofScore v s).events.Perm ((melodicEvents v s).map Prod.snd ++ drumEvents v s) := by
  have hmelodic : (melodicEvents v s).map Prod.snd = s.sections.flatMap fun part =>
      part.tracks.flatMap fun t => trackEvents v s.tempo (secondsOf s.tempo part.startBeat)
        (channelOf (assignChannels v s) t.name) t := by
    simp only [melodicEvents, List.map_flatMap, List.map_map, Function.comp_def, List.map_id']
  rw [hmelodic]
  exact (Sorting.sort_perm earlier (enumerate v s)).trans (List.flatMap_append_perm ..).symm

theorem of_mem_trackEvents {v : Vocabulary α} {tempo sectionStart : α} {channel : Nat}
    {t : Track α} {e : TimedEvent α} (h : e ∈ trackEvents v tempo sectionStart channel t) :
    e.track = t.name ∧ e.channel = channel := by
  have hpair : ∀ pitch velocity start stop, e ∈ pair t.name channel pitch velocity start stop →
      e.track = t.name ∧ e.channel = channel := by
    intro pitch velocity start stop he
    simp only [pair, List.mem_cons, List.not_mem_nil, or_false] at he
    rcases he with rfl | rfl <;> exact ⟨rfl, rfl⟩
  rcases List.mem_append.mp h with h | h
  · obtain ⟨n, _, he⟩ := List.mem_flatMap.mp h
    exact hpair _ _ _ _ he
  · obtain ⟨c, _, hc⟩ := List.mem_flatMap.mp h
    obtain ⟨pitch, _, he⟩ := List.mem_flatMap.mp hc
    exact hpair _ _ _ _ he

theorem channel_of_mem_drumEvents {v : Vocabulary α} {s : Score α} {e : TimedEvent α}
    (h : e ∈ drumEvents v s) : e.channel = drumChannel := by
  obtain ⟨part, _, hpart⟩ := List.mem_flatMap.mp h
  cases hdrums : part.drums with
  | none =>
    rw [hdrums] at hpart
    cases hpart
  | some drums =>
    rw [hdrums] at hpart
    obtain ⟨hit, _, he⟩ := List.mem_flatMap.mp hpart
    simp only [hitEvents, pair, List.mem_cons, List.not_mem_nil, or_false] at he
    rcases he with rfl | rfl <;> rfl

/-- **Channels of events.** The events of a timeline are those of tracks and those of drum hits.
Drum hits are on the channel of the drums. An event of a track has the name of the track, of which
the plan has one melodic entry, never on the channel of the drums; it is on the channel of that
entry, unless the track is called like the drums and the score has drum hits: then it is on the
channel of the drums. -/
theorem channel_of_events (v : Vocabulary α) (s : Score α) :
    (ofScore v s).events.Perm ((melodicEvents v s).map Prod.snd ++ drumEvents v s) ∧
    (∀ t e, (t, e) ∈ melodicEvents v s →
      e.track = t.name ∧
      ∃ a, (ofScore v s).channels.filter (fun a => a.track == t.name && !a.percussion) = [a] ∧
        a.channel ≠ drumChannel ∧
        e.channel = if t.name = Default.drumTrackName ∧ s.hasDrumHits then drumChannel
          else a.channel) ∧
    ∀ e ∈ drumEvents v s, e.channel = drumChannel := by
  refine ⟨ofScore_perm v s, fun t e h => ?_, fun e => channel_of_mem_drumEvents⟩
  obtain ⟨part, hpart, h⟩ := List.mem_flatMap.mp h
  obtain ⟨u, hu, h⟩ := List.mem_flatMap.mp h
  obtain ⟨_, hevent, heq⟩ := List.mem_map.mp h
  obtain ⟨rfl, rfl⟩ := Prod.mk.inj heq
  obtain ⟨htrack, hchannel⟩ := of_mem_trackEvents hevent
  refine ⟨htrack, ?_⟩
  rw [hchannel]
  exact channelOf_assignChannels v (List.mem_flatMap.mpr ⟨part, hpart, hu⟩)

/-- A track that is called like the drums, next to drums. -/
def drumsTwice : Score Float where
  title := "Two drums"
  tempo := 120
  key := "C"
  timeSignature := "4/4"
  sections :=
    [{ name := "Verse", bars := 1, startBar := 0, key := none, tempo := none
       tracks :=
        [⟨"Bass", "bass", [⟨36, 0, 1, 1⟩], [], 1, 1⟩, ⟨"Drums", "piano", [⟨60, 0, 1, 1⟩], [], 1, 1⟩]
       drums := some ⟨"Drums", [⟨"kick", 0, 1⟩], 1⟩ }]

theorem mem_melodicEvents_drumsTwice :
    ((⟨"Drums", "piano", [⟨60, 0, 1, 1⟩], [], 1, 1⟩, ⟨.noteOn, 0, 9, 60, 127, "Drums"⟩) :
      Track Float × TimedEvent Float) ∈ melodicEvents Vocabulary.standard drumsTwice := by
  decide +kernel

/-- The bass is on its channel, and the other track is not on the channel of its entry. -/
theorem channel_of_events_drumsTwice :
    ∃ bass drums : Track Float, ∃ low high : TimedEvent Float,
      (bass, low) ∈ melodicEvents Vocabulary.standard drumsTwice ∧
      (drums, high) ∈ melodicEvents Vocabulary.standard drumsTwice ∧
      low.track = "Bass" ∧ low.channel ≠ drumChannel ∧
      high.track = "Drums" ∧ high.channel = drumChannel := by
  have hbass : (⟨"Bass", "bass", [⟨36, 0, 1, 1⟩], [], 1, 1⟩, ⟨.noteOn, 0, 0, 36, 127, "Bass"⟩)
      ∈ melodicEvents Vocabulary.standard drumsTwice := by
    decide +kernel
  have h := (channel_of_events Vocabulary.standard drumsTwice).2.1
  obtain ⟨hname, a, _, ha, hlow⟩ := h _ _ hbass
  obtain ⟨hname', _, _, _, hhigh⟩ := h _ _ mem_melodicEvents_drumsTwice
  rw [if_neg (by decide)] at hlow
  rw [if_pos (by decide +kernel)] at hhigh
  exact ⟨_, _, _, _, hbass, mem_melodicEvents_drumsTwice, hname, hlow ▸ ha, hname', hhigh⟩

/-- A track may be called like the drums in a score that was loaded, and is then played on their
channel. -/
theorem melodic_on_drumChannel :
    (∀ registry options,
      Document.load registry options (Document.ofScore drumsTwice) = ⟨.ok drumsTwice, []⟩) ∧
    ¬ ∀ t e, (t, e) ∈ melodicEvents Vocabulary.standard drumsTwice →
      e.channel ≠ drumChannel ∧
      ∃ a ∈ (ofScore Vocabulary.standard drumsTwice).channels,
        a.track = t.name ∧ a.percussion = false ∧ e.channel = a.channel := by
  refine ⟨fun registry options => Document.load_storable registry options ?_, fun h => ?_⟩
  · exact ⟨by decide +kernel, by decide +kernel⟩
  · exact (h _ _ mem_melodicEvents_drumsTwice).1 rfl

end Timeline

end LeadSheet
