import LeadSheet.Score.Basic
import LeadSheet.Vocabulary.Basic

/-!
# The channel plan

For playing, each track name gets a MIDI channel and a sound. Names are numbered in the order in
which they first appear; the drum channel is left out, and names beyond the last channel share it.
If any section has drum hits, an entry for the drums comes last.

Files number their channels by sorted name instead (`Midi.Export`), so the two may differ.
-/

namespace LeadSheet

/-- The channel of the drums. -/
def drumChannel : Nat := 9

/-- The last channel. -/
def maxChannel : Nat := 15

/-- The channel of the melodic track with an index. -/
def melodicChannel {ι : Type} [Add ι] [LT ι] [DecidableLT ι] [OfNat ι 1] [OfNat ι 9] [OfNat ι 15]
    (index : ι) : ι :=
  let channel := if index < 9 then index else index + 1
  if 15 < channel then 15 else channel

/-- The channel and the sound of a track name. -/
structure Assignment (α : Type) where
  track : String
  /-- The instrument of the first track of that name. -/
  instrument : String
  channel : Nat
  /-- The General MIDI program; zero for the drums. -/
  program : α
  percussion : Bool
  volume : α
  pan : α
  deriving DecidableEq, Repr

variable {α : Type} [Scalar α]

omit [Scalar α] in
/-- The tracks whose name does not appear before them. -/
def firstOfEachName (tracks : List (Track α)) : List (Track α) :=
  tracks.foldl (fun kept t => if kept.any (·.name == t.name) then kept else kept ++ [t]) []

omit [Scalar α] in
/-- The tracks of all sections, in order. -/
def Score.tracks (s : Score α) : List (Track α) := s.sections.flatMap (·.tracks)

omit [Scalar α] in
/-- The entry of a melodic track. -/
def melodicAssignment (v : Vocabulary α) (index : Nat) (t : Track α) : Assignment α where
  track := t.name
  instrument := t.instrument
  channel := melodicChannel index
  program := v.melodicProgram t.instrument
  percussion := false
  volume := t.volume
  pan := t.pan

/-- The entry of the drums. Its volume is that of the first drum track, with hits or without. -/
def drumAssignment (s : Score α) : Assignment α where
  track := Default.drumTrackName
  instrument := "drums"
  channel := drumChannel
  program := 0
  percussion := true
  volume := ((s.sections.findSome? (·.drums)).map (·.volume)).getD Default.trackVolume
  pan := Default.trackPan

/-- The channel plan of a score. -/
def assignChannels (v : Vocabulary α) (s : Score α) : List (Assignment α) :=
  (firstOfEachName s.tracks).mapIdx (melodicAssignment v)
    ++ if s.hasDrumHits then [drumAssignment s] else []

/-- The channel of a track name in a plan: that of the last entry with the name. -/
def channelOf (plan : List (Assignment α)) (track : String) : Nat :=
  match plan.reverse.find? (·.track == track) with
  | some a => a.channel
  | none => 0

end LeadSheet
