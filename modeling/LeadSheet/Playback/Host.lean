import LeadSheet.Playback.Clock
import LeadSheet.Playback.Order

/-!
# Where a synthesizer runs

A synthesizer needs a clock, a place for what it has to say to the user, and the outside world that
it asks for things. `Host` holds these beside the state of the synthesizer; what was asked of the
outside is kept as a list of calls, in order, from the beginning.

`Synth` is what a player needs of a synthesizer. Whatever it does, it does to its host.
-/

namespace LeadSheet.Playback

/-- What a timer is for. -/
inductive Alarm where
  /-- A round of the player's loop. -/
  | loop
  /-- A message that is to be sent. -/
  | message (bytes : List UInt8)
  deriving DecidableEq, Repr

/-- An open output port. -/
structure Port where
  /-- The index of the output. -/
  index : Nat
  /-- Tells ports of one output apart. -/
  serial : Nat
  deriving DecidableEq, Repr

/-- Something asked of the outside. -/
inductive Call (α : Type) where
  /-- An order, noted down by a synthesizer that makes no sound. -/
  | order (order : Order α)
  /-- The listener was told that playback came to the end of the song. -/
  | ended
  /-- The MIDI system was asked for an engine. -/
  | loadEngine
  /-- An output was opened; it gave a port, or it did not. -/
  | openOutput (index : Nat) (port : Option Port)
  | send (port : Port) (message : List UInt8)
  | close (port : Port)
  deriving DecidableEq, Repr

/-- How grave a notice is. -/
inductive Level where
  | info
  | warning
  | error
  deriving DecidableEq, Repr

/-- Something said to the user. -/
structure Notice where
  level : Level
  text : String
  deriving DecidableEq, Repr

/-- An error raised by something outside. -/
structure Fault where
  name : String
  message : String
  deriving DecidableEq, Repr

/-- The text of an error. -/
def Fault.text (f : Fault) : String := f.name ++ ": " ++ f.message

/-- A synthesizer with its surroundings. -/
structure Host (ω α : Type) where
  clock : Clock Alarm α
  /-- What was asked of the outside, in order. -/
  calls : List (Call α)
  /-- What was said to the user, in order. -/
  notices : List Notice
  synth : ω
  deriving DecidableEq, Repr

namespace Host

variable {ω α : Type}

/-- A synthesizer at a time, in milliseconds, when nothing has happened. -/
def startingAt (now : α) (synth : ω) : Host ω α := ⟨.startingAt now, [], [], synth⟩

/-- Keeps a call. -/
def record (h : Host ω α) (call : Call α) : Host ω α := { h with calls := h.calls ++ [call] }

/-- Says something to the user. -/
def say (h : Host ω α) (level : Level) (text : String) : Host ω α :=
  { h with notices := h.notices ++ [⟨level, text⟩] }

end Host

/-- A synthesizer that a player can drive. -/
class Synth (ω α : Type) where
  /-- The time of its clock, in seconds. -/
  time : Host ω α → α
  /-- Carries out an order. -/
  obey : Order α → Host ω α → Host ω α
  /-- Sends the message of a timer, given by its number. -/
  deliver : Nat → List UInt8 → Host ω α → Host ω α

/-- Lets the timers of messages run that fall due in a stretch of time. -/
def Host.advance {ω α : Type} [Scalar α] [Synth ω α] (h : Host ω α) (milliseconds : α) :
    Host ω α :=
  let stop := h.clock.now + milliseconds
  let fire (h : Host ω α) (timer : Timer Alarm α) : Host ω α :=
    let fired := { h with clock := h.clock.fire timer }
    match timer.action with
    | .message bytes => Synth.deliver timer.number bytes fired
    | .loop => fired
  let run := Clock.runDue (·.clock) fire stop Clock.runLimit h
  { run with clock := { run.clock with now := stop } }

/-! ## A synthesizer that takes notes -/

/-- A synthesizer that makes no sound and notes down every order. Its clock is the host's. -/
structure Recorder where
  deriving DecidableEq, Repr

instance {α : Type} [Scalar α] : Synth Recorder α where
  time h := h.clock.now / (1000 : α)
  obey order h := h.record (.order order)
  deliver _ _ h := h

end LeadSheet.Playback
