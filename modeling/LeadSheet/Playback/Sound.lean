import LeadSheet.Timeline.Channel

/-!
# Sounds

What a track is heard with: a program of a bank, a volume and a pan. A track's sound is first taken
from the channel plan, and any part of it can be changed. A synthesizer is told the sound of a
channel as a setup.
-/

namespace LeadSheet.Playback

/-- The sound of a track. -/
structure Sound (α : Type) where
  program : α
  bank : α
  /-- From zero to one. -/
  volume : α
  /-- From zero, left, to one, right. -/
  pan : α
  deriving DecidableEq, Repr

/-- A change of a sound; what is not given stays. -/
structure SoundChange (α : Type) where
  program : Option α := none
  bank : Option α := none
  volume : Option α := none
  pan : Option α := none
  deriving DecidableEq, Repr

/-- The sound of a channel. -/
structure ChannelSetup (α : Type) where
  channel : Nat
  sound : Sound α
  deriving DecidableEq, Repr

variable {α : Type}

/-- The sound with a change. -/
def Sound.change (s : Sound α) (c : SoundChange α) : Sound α where
  program := c.program.getD s.program
  bank := c.bank.getD s.bank
  volume := c.volume.getD s.volume
  pan := c.pan.getD s.pan

/-- The bank of drum kits. -/
def percussionBank : Nat := 128

/-- The sound that the channel plan gives a track. -/
def Sound.planned [Scalar α] (a : Assignment α) : Sound α where
  program := a.program
  bank := if a.percussion then Scalar.ofNat percussionBank else 0
  volume := a.volume
  pan := a.pan

/-! ## The sounds of all tracks -/

/-- The sounds of tracks by name. -/
abbrev Sounds (α : Type) := List (String × Sound α)

namespace Sounds

/-- The sound of a track. -/
def get? (sounds : Sounds α) (track : String) : Option (Sound α) := sounds.lookup track

/-- Gives a track a sound. -/
def put (sounds : Sounds α) (track : String) (sound : Sound α) : Sounds α :=
  match sounds with
  | [] => [(track, sound)]
  | (other, old) :: rest =>
    if other = track then (other, sound) :: rest else (other, old) :: put rest track sound

/-- The sounds of a channel plan, with changes by track name. Of two entries for one track the later
one counts. -/
def planned [Scalar α] (plan : List (Assignment α)) (changes : List (String × SoundChange α)) :
    Sounds α :=
  plan.foldl
    (fun sounds a =>
      sounds.put a.track ((Sound.planned a).change ((changes.lookup a.track).getD {})))
    []

end Sounds

end LeadSheet.Playback
