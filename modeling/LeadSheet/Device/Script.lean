import LeadSheet.Device.Task

/-!
# A MIDI system that follows a script

The script says what every request to the MIDI system comes to: what is got when an engine is asked
for, the first time, the second time and so on, what the outputs are, what opening each of them
gives, and which of the messages cannot be sent.
-/

namespace LeadSheet.Device

open Playback (Port Fault)

/-- What opening an output gives. -/
inductive ScriptedPort where
  | usable
  | unusable
  | raising (fault : Fault)
  deriving DecidableEq, Repr

/-- A script, and how much of it has been used. -/
structure Script where
  /-- What the requests for an engine give; the last one counts for all later ones. -/
  engines : List EngineAnswer
  /-- What engines tell. -/
  info : Json
  /-- The error that asking an engine raises. -/
  infoFault? : Option Fault
  /-- What opening the outputs gives, by index; an output beyond the list can be used. -/
  ports : List ScriptedPort
  /-- The error that sending a message raises, by how many were sent before. -/
  sendFault? : Nat → Option Fault
  /-- The error that closing a port raises. -/
  closeFault? : Option Fault
  /-- How many engines were asked for. -/
  loads : Nat := 0
  /-- How many ports were opened. -/
  openings : Nat := 0
  /-- How many messages were sent. -/
  sends : Nat := 0

namespace Script

/-- What a request for an engine gives. -/
def engineAnswer (s : Script) : EngineAnswer :=
  ((s.engines[s.loads]?).or s.engines.getLast?).getD (.engine ⟨0⟩)

/-- What an engine tells. -/
def infoAnswer (s : Script) : Except Fault Json :=
  match s.infoFault? with
  | some fault => .error fault
  | none => .ok s.info

/-- What opening an output gives. -/
def portAnswer (s : Script) (index : Nat) : PortAnswer :=
  match s.ports.getD index .usable with
  | .usable => .port ⟨index, s.openings⟩
  | .unusable => .unusable
  | .raising fault => .raised fault

end Script

instance : Hardware Script where
  loadEngine s := (s.engineAnswer, { s with loads := s.loads + 1 })
  info _ s := (s.infoAnswer, s)
  openOutput _ index s := (s.portAnswer index, { s with openings := s.openings + 1 })
  send _ _ s := (s.sendFault? s.sends, { s with sends := s.sends + 1 })
  close _ s := (s.closeFault?, s)

end LeadSheet.Device
