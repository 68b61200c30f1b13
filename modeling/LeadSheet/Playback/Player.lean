import LeadSheet.Playback.Order
import LeadSheet.Sorting.Search

/-!
# The player

A player takes a timeline to a synthesizer. It does not wait for the moment of an event: a loop lets
it look ahead every few milliseconds, and it hands over all events up to there, each with the time
at which it is to sound. The synthesizer has a clock of its own, in seconds. While playing, the
place in the song follows from that clock and from where the playhead stood at which time
(`startPosition`, `startTime`); the cursor is the number of events that are behind the playhead or
handed over.

The player does nothing by itself. Every operation is given the synthesizer's time and answers with
the player's next state and the commands to carry out, in order. Whatever ends playing stops the
loop and silences the synthesizer.
-/

namespace LeadSheet.Playback

/-- What a player is doing. -/
inductive Mode where
  | stopped
  | playing
  | paused
  deriving DecidableEq, Repr

/-- What a player wants done. -/
inductive Command (α : Type) where
  /-- Give the synthesizer an order. -/
  | order (order : Order α)
  /-- Start the loop, with a period in milliseconds. -/
  | startLoop (period : α)
  | stopLoop
  deriving DecidableEq, Repr

/-- A player. -/
structure Player (α : Type) where
  /-- How far ahead of the playhead events are handed over, in seconds. -/
  lookahead : α
  /-- The period of the loop in milliseconds. -/
  period : α
  timeline : Timeline α
  sounds : Sounds α
  mode : Mode
  /-- The synthesizer's time at which the playhead stood at `startPosition`. -/
  startTime : α
  startPosition : α
  /-- The playhead while not playing. -/
  heldPosition : α
  /-- How many events are behind the playhead or handed over. -/
  cursor : Nat
  deriving DecidableEq, Repr

/-- The answer to an operation. -/
structure Reply (α : Type) where
  player : Player α
  /-- What is to be done, in order. -/
  commands : List (Command α)
  /-- Whether playback came to the end of the song. -/
  ended : Bool
  deriving DecidableEq, Repr

/-- The reply with commands that go first. -/
def Reply.after {α : Type} (commands : List (Command α)) (r : Reply α) : Reply α :=
  { r with commands := commands ++ r.commands }

variable {α : Type} [Scalar α]

/-- How far ahead a player looks where nothing else is asked, in seconds. -/
def defaultLookahead : α := Scalar.ofDecimal 1 1

/-- The period of the loop where nothing else is asked, in milliseconds. -/
def defaultPeriod : Nat := 25

/-- A note that is late by more seconds than this is dropped. -/
def lateTolerance : α := Scalar.ofDecimal 5 2

namespace Player

/-- A player that stands at the start of a song. -/
def ofTimeline (lookahead period : α) (timeline : Timeline α)
    (changes : List (String × SoundChange α)) : Player α where
  lookahead
  period
  timeline
  sounds := Sounds.planned timeline.channels changes
  mode := .stopped
  startTime := 0
  startPosition := 0
  heldPosition := 0
  cursor := 0

/-! ## Where the playhead is -/

/-- Seconds of the song. -/
def duration (p : Player α) : α := p.timeline.durationSeconds

/-- The place in the song that the synthesizer's clock stands for, whether the song reaches it or
not. -/
def reached (p : Player α) (now : α) : α := p.startPosition + (now - p.startTime)

/-- The playhead, in seconds from the start of the song. -/
def position (p : Player α) (now : α) : α :=
  if p.mode = .playing then Scalar.min (p.reached now) p.duration else p.heldPosition

/-- The time at which an event is to sound. -/
def timeOf (p : Player α) (event : TimedEvent α) : α :=
  p.startTime + (event.seconds - p.startPosition)

/-- How many events stand before a position. -/
def cursorAt (events : List (TimedEvent α)) (position : α) : Nat :=
  Sorting.partitionPoint (fun event => event.seconds < position) events

/-- The player with the playhead at a position at a time, and the cursor there. -/
def startAt (p : Player α) (now position : α) : Player α :=
  { p with
    startTime := now
    startPosition := position
    cursor := cursorAt p.timeline.events position }

/-! ## Handing events over -/

/-- The events from the cursor on that lie in reach of the lookahead. -/
def upcoming (p : Player α) (now : α) : List (TimedEvent α) :=
  let horizon := p.reached now + p.lookahead
  (p.timeline.events.drop p.cursor).takeWhile fun event => !(horizon < event.seconds)

/-- The command that hands an event over; none for the start of a note that is too late. The end of
a note always goes out, so that nothing hangs. -/
def dispatch? (p : Player α) (now : α) (event : TimedEvent α) : Option (Command α) :=
  let time := p.timeOf event
  if event.kind = .noteOn ∧ time < now - lateTolerance then none
  else some (.order (.schedule event (Scalar.max time now)))

/-- Whether playback is at its end: all events are handed over, and the song is over. -/
def isOver (p : Player α) (now : α) : Bool :=
  p.timeline.events.length ≤ p.cursor && p.duration ≤ p.reached now

/-- The player at rest at the start of the song. -/
def rewound (p : Player α) : Player α :=
  { p with mode := .stopped, startPosition := 0, heldPosition := 0 }

/-- One round of the loop. -/
def tick (p : Player α) (now : α) : Reply α :=
  if p.mode = .playing then
    let events := p.upcoming now
    let commands := events.filterMap (p.dispatch? now)
    let p := { p with cursor := p.cursor + events.length }
    if p.isOver now then ⟨p.rewound, commands ++ [.stopLoop, .order .cancelAll], true⟩
    else ⟨p, commands, false⟩
  else ⟨p, [], false⟩

/-! ## Sounds -/

/-- The channel of a track, with its sound. -/
def setupOf (a : Assignment α) (sound : Sound α) : Command α := .order (.setup ⟨a.channel, sound⟩)

/-- The commands that give every channel its sound. -/
def setups (p : Player α) : List (Command α) :=
  p.timeline.channels.filterMap fun a => (p.sounds.get? a.track).map (setupOf a)

/-- Changes the sound of a track, at once and for later. An unknown track is ignored. -/
def setSound (p : Player α) (track : String) (change : SoundChange α) : Reply α :=
  match p.sounds.get? track, p.timeline.channels.find? (·.track == track) with
  | some sound, some a =>
    let changed := sound.change change
    ⟨{ p with sounds := p.sounds.put track changed }, [setupOf a changed], false⟩
  | _, _ => ⟨p, [], false⟩

/-- Changes the volume of a track, brought into the range from zero to one. -/
def setVolume (p : Player α) (track : String) (volume : α) : Reply α :=
  p.setSound track { volume := some (Scalar.max 0 (Scalar.min 1 volume)) }

/-! ## Transport -/

/-- Starts playing, or resumes where the playhead is held. The channels get their sounds unless
playing was only paused, and the first round of the loop runs at once. -/
def play (p : Player α) (now : α) : Reply α :=
  if p.mode = .playing then ⟨p, [], false⟩
  else
    let first := if p.mode = .stopped then p.setups else []
    let started := { p.startAt now p.heldPosition with mode := .playing }
    Reply.after (first ++ [.startLoop p.period]) (started.tick now)

/-- Holds the playhead where it is. -/
def pause (p : Player α) (now : α) : Reply α :=
  if p.mode = .playing then
    let held := { p with heldPosition := p.position now, mode := .paused }
    ⟨held, [.stopLoop, .order .cancelAll], false⟩
  else ⟨p, [], false⟩

/-- Stops, and rewinds to the start. -/
def stop (p : Player α) : Reply α :=
  ⟨p.rewound, if p.mode = .stopped then [.stopLoop] else [.stopLoop, .order .cancelAll], false⟩

/-- Moves the playhead, to the start or the end if the position lies outside of the song. -/
def seek (p : Player α) (now seconds : α) : Reply α :=
  let position := Scalar.max 0 (Scalar.min seconds p.duration)
  if p.mode = .playing then Reply.after [.order .cancelAll] ((p.startAt now position).tick now)
  else ⟨{ p with heldPosition := position }, [], false⟩

/-- Stops, and takes another song with sounds of its own. -/
def load (p : Player α) (timeline : Timeline α) (changes : List (String × SoundChange α)) :
    Reply α :=
  let stopped := p.stop
  { stopped with
    player :=
      { stopped.player with timeline, sounds := Sounds.planned timeline.channels changes } }

/-- Stops, and gives the synthesizer up. -/
def dispose (p : Player α) : Reply α :=
  let stopped := p.stop
  { stopped with commands := stopped.commands ++ [.order .dispose] }

end Player

end LeadSheet.Playback
