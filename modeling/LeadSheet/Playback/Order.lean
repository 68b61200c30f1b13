import LeadSheet.Playback.Sound
import LeadSheet.Timeline.Compile

/-!
# Orders to a synthesizer

All that a player asks of a synthesizer: to give a channel its sound, to let an event sound at a
time of the synthesizer's own clock, and to fall silent, for now or for good.
-/

namespace LeadSheet.Playback

/-- An order to a synthesizer. -/
inductive Order (α : Type) where
  /-- Give a channel its sound. -/
  | setup (setup : ChannelSetup α)
  /-- Let an event sound at a time, in seconds. -/
  | schedule (event : TimedEvent α) (time : α)
  /-- Drop what is scheduled and has not been sent, and silence every channel. -/
  | cancelAll
  /-- Fall silent and take no further orders. -/
  | dispose
  deriving DecidableEq, Repr

end LeadSheet.Playback
