import LeadSheet.Proofs.Timeline.Names
import LeadSheet.Proofs.Timeline.Channels
import Mathlib.Data.List.Induction
import Mathlib.Data.List.Pairwise

/-!
# The channel plan as a whole

Names are kept as tracks come by, each when it comes first, and the channel of an entry is told by
how many names were kept before it. So names stand in the order in which they first appear, and
channels rise along them, past that of the drums, until after fifteen names there are no more of
them (`assignChannels_plan`). Drums come last, and only where there is something to strike.
-/

namespace LeadSheet

/-! ## The order of names -/

section

variable {α : Type} {tracks : List (Track α)} {t : Track α}

/-- What one more track adds to those that are kept. -/
theorem firstOfEachName_concat (tracks : List (Track α)) (t : Track α) :
    firstOfEachName (tracks ++ [t]) =
      if (firstOfEachName tracks).any (·.name == t.name) then firstOfEachName tracks
      else firstOfEachName tracks ++ [t] := by
  unfold firstOfEachName
  rw [List.foldl_append, List.foldl_cons, List.foldl_nil]

/-- A track that is kept is the first one of its name. -/
theorem find?_of_mem_firstOfEachName (h : t ∈ firstOfEachName tracks) :
    tracks.find? (·.name == t.name) = some t := by
  have halone := filter_eq_singleton Track.name (nodup_firstOfEachName tracks) h
  rw [← find?_firstOfEachName, ← List.head?_filter, halone, List.head?_singleton]

theorem name_mem_firstOfEachName_iff {name : String} :
    name ∈ (firstOfEachName tracks).map (·.name) ↔ name ∈ tracks.map (·.name) := by
  constructor
  · intro h
    obtain ⟨t, ht, rfl⟩ := List.mem_map.mp h
    exact List.mem_map_of_mem (List.mem_of_find?_eq_some (find?_of_mem_firstOfEachName ht))
  · intro h
    obtain ⟨t, ht, rfl⟩ := List.mem_map.mp h
    exact name_mem_firstOfEachName ht

/-- Names are kept in the order in which they first appear. -/
theorem pairwise_firstOfEachName (tracks : List (Track α)) :
    ((firstOfEachName tracks).map (·.name)).Pairwise fun a b =>
      (tracks.map (·.name)).idxOf a < (tracks.map (·.name)).idxOf b := by
  induction tracks using List.reverseRecOn with
  | nil => exact .nil
  | append_singleton tracks t ih =>
    -- a name that was there before `t` appears where it did
    have hplace : ∀ name ∈ (firstOfEachName tracks).map (·.name),
        ((tracks ++ [t]).map (·.name)).idxOf name = (tracks.map (·.name)).idxOf name := by
      intro name hname
      rw [List.map_append, List.idxOf_append_of_mem (name_mem_firstOfEachName_iff.mp hname)]
    have hkept := ih.imp_of_mem fun {a b} ha hb hlt => by
      rwa [← hplace a ha, ← hplace b hb] at hlt
    rw [firstOfEachName_concat]
    split
    · exact hkept
    · next hnew =>
      have ht : t.name ∉ tracks.map (·.name) := by
        rw [← name_mem_firstOfEachName_iff]
        intro hmem
        obtain ⟨u, hu, hname⟩ := List.mem_map.mp hmem
        exact hnew (List.any_eq_true.mpr ⟨u, hu, beq_iff_eq.mpr hname⟩)
      have hnames : (firstOfEachName tracks ++ [t]).map (·.name)
          = (firstOfEachName tracks).map (·.name) ++ [t.name] := List.map_append
      rw [hnames, List.pairwise_append]
      refine ⟨hkept, List.pairwise_singleton _ _, fun a ha b hb => ?_⟩
      obtain rfl := List.mem_singleton.mp hb
      rw [hplace a ha, List.map_append, List.idxOf_append_of_notMem ht]
      exact Nat.lt_add_right _ (List.idxOf_lt_length_iff.mpr (name_mem_firstOfEachName_iff.mp ha))

end

/-! ## Entries -/

variable {α : Type}

/-- Entries for the names of tracks: each name once, in the order in which the names first appear,
with what the first track of the name says. -/
structure ListsTracks (tracks : List (Track α)) (entries : List (Assignment α)) : Prop where
  nodup : (entries.map (·.track)).Nodup
  mem_iff : ∀ name, name ∈ entries.map (·.track) ↔ name ∈ tracks.map (·.name)
  ordered : (entries.map (·.track)).Pairwise fun a b =>
    (tracks.map (·.name)).idxOf a < (tracks.map (·.name)).idxOf b
  sound : ∀ a ∈ entries, ∃ first, tracks.find? (·.name == a.track) = some first ∧
    a.instrument = first.instrument ∧ a.volume = first.volume ∧ a.pan = first.pan

/-- How many names have a channel of their own. -/
def ownChannels : Nat := 15

/-- Channels that are given out one after the other, but for that of the drums, and then the last
one again and again. -/
structure GivenOut (channels : List Nat) : Prop where
  increasing : (channels.take ownChannels).Pairwise (· < ·)
  melodic : ∀ c ∈ channels.take ownChannels, c ≤ maxChannel ∧ c ≠ drumChannel
  shared : ∀ c ∈ channels.drop ownChannels, c = maxChannel

theorem melodicChannel_lt {i j : Nat} (hij : i < j) (hj : j < ownChannels) :
    melodicChannel i < melodicChannel j := by
  unfold ownChannels at hj
  unfold melodicChannel
  dsimp only
  split_ifs <;> omega

theorem melodicChannel_le (i : Nat) : melodicChannel i ≤ maxChannel := by
  unfold melodicChannel maxChannel
  dsimp only
  split_ifs <;> omega

theorem melodicChannel_of_ge {i : Nat} (hi : ownChannels ≤ i) : melodicChannel i = maxChannel := by
  unfold ownChannels at hi
  unfold melodicChannel maxChannel
  dsimp only
  split_ifs <;> omega

theorem givenOut_melodicChannel (count : Nat) :
    GivenOut ((List.range count).map melodicChannel) where
  increasing := by
    rw [← List.map_take, List.take_range, List.pairwise_map]
    refine List.pairwise_lt_range.imp_of_mem fun {i j} _ hj hlt => melodicChannel_lt hlt ?_
    exact (Nat.lt_min.mp (List.mem_range.mp hj)).1
  melodic c hc := by
    obtain ⟨i, -, rfl⟩ := List.mem_map.mp (List.mem_of_mem_take hc)
    exact ⟨melodicChannel_le i, melodicChannel_ne_drumChannel i⟩
  shared c hc := by
    rw [← List.map_drop, List.range_eq_range', List.drop_range'] at hc
    obtain ⟨i, hi, rfl⟩ := List.mem_map.mp hc
    obtain ⟨k, -, rfl⟩ := List.mem_range'.mp hi
    exact melodicChannel_of_ge (by omega)

/-! ## The plan -/

/-- The entries of a plan that are not for the drums. -/
def melodicEntries (plan : List (Assignment α)) : List (Assignment α) :=
  plan.filter (!·.percussion)

theorem Score.hasDrumHits_iff {s : Score α} : s.hasDrumHits = true ↔
    ∃ part ∈ s.sections, ∃ drums, part.drums = some drums ∧ drums.hits ≠ [] := by
  rw [Score.hasDrumHits, List.any_eq_true]
  refine exists_congr fun part => and_congr_right fun _ => ?_
  unfold Section.hasDrumHits
  cases part.drums <;> simp

theorem listsTracks_mapIdx (v : Vocabulary α) (tracks : List (Track α)) :
    ListsTracks tracks ((firstOfEachName tracks).mapIdx (melodicAssignment v)) := by
  have hnames : ((firstOfEachName tracks).mapIdx (melodicAssignment v)).map (·.track)
      = (firstOfEachName tracks).map (·.name) := map_mapIdx _ _ fun _ _ => rfl
  refine ⟨?_, fun name => ?_, ?_, fun a ha => ?_⟩
  · rw [hnames]
    exact nodup_firstOfEachName tracks
  · rw [hnames, name_mem_firstOfEachName_iff]
  · rw [hnames]
    exact pairwise_firstOfEachName tracks
  · obtain ⟨i, hi, rfl⟩ := List.mem_mapIdx.mp ha
    exact ⟨_, find?_of_mem_firstOfEachName (List.getElem_mem hi), rfl, rfl, rfl⟩

theorem givenOut_mapIdx (v : Vocabulary α) (tracks : List (Track α)) :
    GivenOut ((tracks.mapIdx (melodicAssignment v)).map (·.channel)) := by
  have hchannels : (tracks.mapIdx (melodicAssignment v)).map (·.channel)
      = (List.range tracks.length).map melodicChannel := by
    refine List.ext_getElem (by simp) fun i _ _ => ?_
    simp [melodicAssignment]
  rw [hchannels]
  exact givenOut_melodicChannel tracks.length

variable [Scalar α]

theorem melodicEntries_assignChannels (v : Vocabulary α) (s : Score α) :
    melodicEntries (assignChannels v s)
      = (firstOfEachName s.tracks).mapIdx (melodicAssignment v) := by
  have hmelodic : melodicEntries ((firstOfEachName s.tracks).mapIdx (melodicAssignment v))
      = (firstOfEachName s.tracks).mapIdx (melodicAssignment v) := by
    refine List.filter_eq_self.mpr fun a ha => ?_
    obtain ⟨i, _, rfl⟩ := List.mem_mapIdx.mp ha
    rfl
  have hdrums : melodicEntries (if s.hasDrumHits then [drumAssignment s] else []) = [] := by
    split <;> rfl
  unfold melodicEntries at hmelodic hdrums ⊢
  rw [assignChannels, List.filter_append, hmelodic, hdrums, List.append_nil]

/-- **The channel plan of a score.** Its entries that are not for the drums list the names of the
tracks, each once, in the order in which they first appear, with instrument, volume and pan of the
first track of the name. Their channels rise, leave out that of the drums and are shared from the
sixteenth name on. If some section has a drum hit, one more entry comes last, for the drums, on
their channel; if none has, there is no other entry. -/
theorem assignChannels_plan (v : Vocabulary α) (s : Score α) :
    let melodic := melodicEntries (assignChannels v s)
    ListsTracks s.tracks melodic ∧ GivenOut (melodic.map (·.channel)) ∧
    ((∃ part ∈ s.sections, ∃ drums, part.drums = some drums ∧ drums.hits ≠ []) →
      ∃ a, assignChannels v s = melodic ++ [a] ∧ a.percussion = true ∧ a.channel = drumChannel) ∧
    ((¬∃ part ∈ s.sections, ∃ drums, part.drums = some drums ∧ drums.hits ≠ []) →
      assignChannels v s = melodic) := by
  rw [melodicEntries_assignChannels, ← Score.hasDrumHits_iff]
  refine ⟨listsTracks_mapIdx v s.tracks, givenOut_mapIdx v _, fun hhits => ?_, fun hnone => ?_⟩
  · refine ⟨drumAssignment s, ?_, rfl, rfl⟩
    rw [assignChannels, if_pos hhits]
  · rw [assignChannels, if_neg hnone, List.append_nil]

end LeadSheet
