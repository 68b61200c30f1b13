import LeadSheet.Json.Value
import LeadSheet.Playback.Host

/-!
# The MIDI system of a computer

A device reaches outputs through an engine, which the MIDI system is asked for, and which tells what
outputs there are and opens them. Nothing of this can be relied on: anything may raise an error, and
what comes back may be unusable. `Hardware` is any such system; its answers may depend on all that
was asked before.
-/

namespace LeadSheet.Device

open Playback (Port Fault)

/-- An engine, the way to the outputs. -/
structure Engine where
  serial : Nat
  deriving DecidableEq, Repr

/-- What becomes of asking for an engine. -/
inductive EngineAnswer where
  /-- An engine comes. -/
  | engine (engine : Engine)
  /-- Something comes that is no engine. -/
  | unusable
  /-- An error comes. -/
  | rejected (fault : Fault)
  /-- An error is raised at once. -/
  | raised (fault : Fault)
  deriving DecidableEq, Repr

/-- What becomes of opening an output. -/
inductive PortAnswer where
  | port (port : Port)
  /-- Something that is no port. -/
  | unusable
  | raised (fault : Fault)
  deriving DecidableEq, Repr

/-- A MIDI system with a state of its own. -/
class Hardware (σ : Type) where
  /-- Asks for an engine. -/
  loadEngine : σ → EngineAnswer × σ
  /-- Asks an engine what there is. -/
  info : Engine → σ → Except Fault Json × σ
  /-- Opens the output with an index. -/
  openOutput : Engine → Nat → σ → PortAnswer × σ
  /-- Sends a message; this may raise an error. -/
  send : Port → List UInt8 → σ → Option Fault × σ
  /-- Closes a port; this may raise an error. -/
  close : Port → σ → Option Fault × σ

/-! ## Outputs -/

/-- What is known of an output. -/
structure OutputInfo where
  /-- Its place in the list of outputs. -/
  index : Nat
  name : String
  manufacturer : Option String
  deriving DecidableEq, Repr

/-- The identifier of an output. -/
def OutputInfo.id (o : OutputInfo) : String := toString o.index

/-- A field's text, if there is any. -/
def textOf? (value : Json) (name : String) : Option String :=
  match value.get? name with
  | some (.string text) => if text = "" then none else some text
  | _ => none

/-- An output as an engine describes it; one without a name is named by its place. -/
def outputOf (index : Nat) (description : Json) : OutputInfo where
  index
  name := (textOf? description "name").getD ("Output " ++ toString index)
  manufacturer := textOf? description "manufacturer"

/-- The outputs that an engine tells of. -/
def outputsOf (info : Json) : List OutputInfo :=
  match info.get? "outputs" with
  | some (.array descriptions) => descriptions.mapIdx outputOf
  | _ => []

end LeadSheet.Device
