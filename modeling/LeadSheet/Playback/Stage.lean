import LeadSheet.Playback.Host
import LeadSheet.Playback.Player

/-!
# A player at work

On a stage, a player drives a synthesizer: its commands are carried out on the host, its loop is a
timer of the host's clock, and a listener may be told when playback comes to the end of the song.
The listener is called last, after everything else that the end of playback asks for, and it may
play again at once.

`Stage.act` is the whole interface: what a user does, and the passing of time.
-/

namespace LeadSheet.Playback

/-- Who is told of the end of the song. -/
inductive Listener where
  | absent
  /-- Takes note. -/
  | silent
  /-- Raises an error. -/
  | failing (fault : Fault)
  /-- Plays again, so many times. -/
  | replaying (times : Nat)
  deriving DecidableEq, Repr

/-- A player with the synthesizer it drives. -/
structure Stage (ω α : Type) where
  player : Player α
  host : Host ω α
  /-- The number of the timer that runs the loop. -/
  loop : Option Nat
  listener : Listener
  deriving DecidableEq, Repr

/-- Something that happens on a stage. -/
inductive Action (α : Type) where
  | play
  | pause
  | stop
  | seek (seconds : α)
  | load (timeline : Timeline α) (changes : List (String × SoundChange α))
  | dispose
  | setVolume (track : String) (volume : α)
  | setSound (track : String) (change : SoundChange α)
  /-- Milliseconds pass without any timer running. -/
  | jump (milliseconds : α)
  /-- Milliseconds pass, and timers run as they fall due. -/
  | advance (milliseconds : α)
  deriving DecidableEq, Repr

namespace Stage

variable {ω α : Type} [Scalar α] [Synth ω α]

/-- The time of the synthesizer's clock. -/
def time (s : Stage ω α) : α := Synth.time s.host

/-- The playhead. -/
def position (s : Stage ω α) : α := s.player.position s.time

/-! ## Carrying out commands -/

/-- Stops the timer of the loop. -/
def stopLoop (s : Stage ω α) : Stage ω α :=
  match s.loop with
  | none => s
  | some number =>
    { s with host := { s.host with clock := s.host.clock.cancel number }, loop := none }

/-- Starts a timer for the loop. -/
def startLoop (s : Stage ω α) (period : α) : Stage ω α :=
  { s with
    host := { s.host with clock := s.host.clock.startEvery period .loop }
    loop := some s.host.clock.started }

/-- Carries out a command. -/
def perform (s : Stage ω α) : Command α → Stage ω α
  | .order order => { s with host := Synth.obey order s.host }
  | .startLoop period => s.startLoop period
  | .stopLoop => s.stopLoop

/-- Takes the player's next state, and carries out its commands. -/
def carryOut (s : Stage ω α) (reply : Reply α) : Stage ω α :=
  { reply.commands.foldl perform s with player := reply.player }

/-! ## The listener -/

/-- Keeps that the listener was told. -/
def noteEnd (s : Stage ω α) : Stage ω α := { s with host := s.host.record .ended }

/-- Plays again, so many times at most: a song may be over as soon as it starts. -/
def replay : Nat → Stage ω α → Stage ω α
  | 0, s => { s with listener := .replaying 0 }
  | times + 1, s =>
    let reply := s.player.play s.time
    let s := { s.carryOut reply with listener := .replaying times }
    if reply.ended then replay times s.noteEnd else s

/-- Tells the listener. An error that it raises is reported and goes no further. -/
def notify (s : Stage ω α) : Stage ω α :=
  match s.listener with
  | .absent => s
  | .silent => s.noteEnd
  | .failing fault =>
    let told := s.noteEnd
    let text := "Player onEnded callback error: " ++ fault.text
    { told with host := told.host.say .error text }
  | .replaying times => replay times s.noteEnd

/-- Does what a reply asks for. -/
def settle (s : Stage ω α) (reply : Reply α) : Stage ω α :=
  if reply.ended then (s.carryOut reply).notify else s.carryOut reply

/-! ## What happens -/

/-- A timer runs. -/
def fire (s : Stage ω α) (timer : Timer Alarm α) : Stage ω α :=
  let s := { s with host := { s.host with clock := s.host.clock.fire timer } }
  match timer.action with
  | .loop => s.settle (s.player.tick s.time)
  | .message bytes => { s with host := Synth.deliver timer.number bytes s.host }

/-- Time passes, and timers run as they fall due. -/
def advance (s : Stage ω α) (milliseconds : α) : Stage ω α :=
  let stop := s.host.clock.now + milliseconds
  let run := Clock.runDue (·.host.clock) fire stop Clock.runLimit s
  { run with host := { run.host with clock := { run.host.clock with now := stop } } }

/-- Something happens. -/
def act (s : Stage ω α) : Action α → Stage ω α
  | .play => s.settle (s.player.play s.time)
  | .pause => s.settle (s.player.pause s.time)
  | .stop => s.settle s.player.stop
  | .seek seconds => s.settle (s.player.seek s.time seconds)
  | .load timeline changes => s.settle (s.player.load timeline changes)
  | .dispose => s.settle s.player.dispose
  | .setVolume track volume => s.settle (s.player.setVolume track volume)
  | .setSound track change => s.settle (s.player.setSound track change)
  | .jump milliseconds => { s with host := { s.host with clock := s.host.clock.jump milliseconds } }
  | .advance milliseconds => s.advance milliseconds

end Stage

end LeadSheet.Playback
