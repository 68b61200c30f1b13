import LeadSheet.Device.Hardware
import LeadSheet.Midi.Message

/-!
# A MIDI output as a synthesizer

A device sends what it is ordered to an output port. An event that is scheduled waits in a timer of
its own and goes to the port that is open when the timer runs. Without an open port the device does
nothing, so that a player above it goes on without a sound; an error that a port raises is reported
as a warning and goes no further.

Once disposed of, a device sends nothing more.
-/

namespace LeadSheet

open Playback (Port Host Sound ChannelSetup Order Synth)

/-- A device that reaches its outputs through a MIDI system. -/
structure Device (σ α : Type) where
  hardware : σ
  engine : Option Device.Engine
  /-- The open port. -/
  output : Option Port
  /-- The output that the open port belongs to. -/
  selected : Option Device.OutputInfo
  /-- The numbers of the timers whose messages have not been sent. -/
  pending : List Nat
  disposed : Bool
  initialized : Bool
  /-- When the device was made, in milliseconds. -/
  startTime : α
  deriving DecidableEq, Repr

namespace Device

/-- How many channels there are. -/
def channelCount : Nat := 16

/-- Whether devices can be made at all: they can, with or without a MIDI system. -/
def isSupported : Bool := true

/-- A message to the user. -/
def notice (text : String) : String := "NodeMIDIBackend: " ++ text

variable {σ α : Type}

/-- A device at the time it is made. -/
def startingAt (now : α) (hardware : σ) : Host (Device σ α) α :=
  .startingAt now
    { hardware, engine := none, output := none, selected := none, pending := [], disposed := false
      initialized := false, startTime := now }

/-- The host with another state of the device. -/
def update (h : Host (Device σ α) α) (change : Device σ α → Device σ α) : Host (Device σ α) α :=
  { h with synth := change h.synth }

/-- Whether messages reach an output. -/
def isReady (h : Host (Device σ α) α) : Bool :=
  h.synth.initialized && !h.synth.disposed && h.synth.output.isSome

/-- Warns of an error. -/
def warn (text : String) (fault? : Option Playback.Fault) (h : Host (Device σ α) α) :
    Host (Device σ α) α :=
  match fault? with
  | none => h
  | some fault => h.say .warning (notice text ++ fault.text)

/-! ## The port -/

variable [Hardware σ]

/-- Sends a message to the open port. -/
def send (message : List UInt8) (h : Host (Device σ α) α) : Host (Device σ α) α :=
  match h.synth.output with
  | none => h
  | some port =>
    let (fault?, hardware) := Hardware.send port message h.synth.hardware
    let sent := (update h fun d => { d with hardware }).record (.send port message)
    warn "Send failed: " fault? sent

/-- Closes the open port. Even if that raises an error, the device is done with the port. -/
def closeOutput (h : Host (Device σ α) α) : Host (Device σ α) α :=
  match h.synth.output with
  | none => h
  | some port =>
    let (fault?, hardware) := Hardware.close port h.synth.hardware
    let closed := (update h fun d => { d with hardware }).record (.close port)
    update (warn "Failed to close MIDI output: " fault? closed) fun d =>
      { d with output := none, selected := none }

/-- Sends messages one after the other. -/
def sendAll (messages : List (List UInt8)) (h : Host (Device σ α) α) : Host (Device σ α) α :=
  messages.foldl (fun h message => send message h) h

/-! ## Orders -/

/-- The messages that give every channel silence. -/
def silence : List (List UInt8) :=
  (List.range channelCount).map fun (channel : Nat) =>
    Midi.controlChange channel Midi.allNotesOffController 0

/-- Drops the events that wait, and silences all channels. -/
def cancelAll (h : Host (Device σ α) α) : Host (Device σ α) α :=
  if h.synth.disposed then h
  else
    let clock := h.synth.pending.foldl Playback.Clock.cancel h.clock
    sendAll silence (update { h with clock } fun d => { d with pending := [] })

/-- Falls silent, closes the port and takes no further orders. -/
def dispose (h : Host (Device σ α) α) : Host (Device σ α) α :=
  if h.synth.disposed then h
  else
    update (closeOutput (cancelAll h)) fun d => { d with engine := none, disposed := true }

/-- Sends the message of a timer that runs. -/
def deliver (number : Nat) (message : List UInt8) (h : Host (Device σ α) α) :
    Host (Device σ α) α :=
  let taken := update h fun d => { d with pending := d.pending.filter (· ≠ number) }
  if taken.synth.disposed then taken else send message taken

variable [Scalar α]

omit [Hardware σ] in
/-- Seconds since the device was made. -/
def time (h : Host (Device σ α) α) : α := (h.clock.now - h.synth.startTime) / (1000 : α)

/-- The messages that give a channel its sound. The channel of the drums has its kit in a bank that
takes no bank select. -/
def setupMessages (setup : ChannelSetup α) : List (List UInt8) :=
  let sound := setup.sound
  let bank :=
    if sound.bank < Scalar.ofNat Playback.percussionBank then
      [Midi.controlChange setup.channel Midi.bankController (Scalar.truncate sound.bank)]
    else []
  bank ++
    [Midi.programChange setup.channel (Scalar.truncate sound.program),
      Midi.controlChange setup.channel Midi.volumeController (Scalar.sevenBit sound.volume),
      Midi.controlChange setup.channel Midi.panController (Scalar.sevenBit sound.pan)]

/-- Gives a channel its sound. -/
def setup (setup : ChannelSetup α) (h : Host (Device σ α) α) : Host (Device σ α) α :=
  if h.synth.disposed then h else sendAll (setupMessages setup) h

/-- The message of an event. -/
def messageOf (event : TimedEvent α) : List UInt8 :=
  match event.kind with
  | .noteOn => Midi.noteOn event.channel (Scalar.truncate event.pitch) event.velocity
  | .noteOff => Midi.noteOff event.channel (Scalar.truncate event.pitch) 0

omit [Hardware σ] in
/-- Lets the message of an event wait for its time. -/
def schedule (event : TimedEvent α) (seconds : α) (h : Host (Device σ α) α) : Host (Device σ α) α :=
  if h.synth.disposed || h.synth.output.isNone then h
  else
    let delay := Scalar.max 0 ((seconds - time h) * (1000 : α))
    let number := h.clock.started
    update { h with clock := h.clock.startOnce delay (.message (messageOf event)) } fun d =>
      { d with pending := d.pending ++ [number] }

/-- Carries out an order. -/
def obey (order : Order α) (h : Host (Device σ α) α) : Host (Device σ α) α :=
  match order with
  | .setup s => setup s h
  | .schedule event seconds => schedule event seconds h
  | .cancelAll => cancelAll h
  | .dispose => dispose h

instance : Synth (Device σ α) α where
  time := time
  obey := obey
  deliver := deliver

end Device

end LeadSheet
