import LeadSheet.Device.Basic

/-!
# Calls that wait

Getting an engine takes time, so three calls on a device wait on the way: to initialize it, to list
the outputs, and to select one of them. Such a call is a task. It starts at once (`Task.ofRequest`),
goes on step by step (`Task.step`), and anything may happen between two steps, also to other tasks
of the same device. Initializing lists the outputs and selects the first one, so it waits for two
such calls one after the other.

`Task.rank` counts the steps that are left, so every task comes to an end; `request` takes one there
without anything in between.
-/

namespace LeadSheet.Device

open Playback (Host Fault)

/-- A call that waits. -/
inductive Request where
  /-- Select the first output, unless that was done before. -/
  | start
  | listOutputs
  /-- Select the output with an identifier. -/
  | selectOutput (id : String)
  deriving DecidableEq, Repr

/-- How a call ends. -/
inductive Result where
  /-- Whether a port is open behind the initialization. -/
  | initialized (isOpen : Bool)
  | outputs (outputs : List OutputInfo)
  /-- Whether the output was selected. -/
  | selected (done : Bool)
  | failed (fault : Fault)
  deriving DecidableEq, Repr

/-- What an engine is wanted for. -/
inductive Goal where
  | list
  | select (id : String)
  /-- The list that initialization starts with. -/
  | firstList
  /-- The selection that initialization goes on with. -/
  | firstSelect (first : OutputInfo)
  deriving DecidableEq, Repr

/-- A call on its way. -/
inductive Task where
  /-- The MIDI system was asked for an engine. -/
  | asked (goal : Goal) (answer : EngineAnswer)
  /-- There is an engine, or there is none to be had. -/
  | equipped (goal : Goal) (engine? : Option Engine)
  /-- The first part of initialization is over. -/
  | listed (outcome : Except Fault (List OutputInfo))
  /-- The second part of initialization is over. -/
  | chosen (first : OutputInfo) (outcome : Except Fault Bool)
  | done (result : Result)

variable {σ α : Type} [Hardware σ]

/-! ## Engines -/

/-- Asks for an engine, unless the device has one. -/
def askFor (goal : Goal) (h : Host (Device σ α) α) : Task × Host (Device σ α) α :=
  match h.synth.engine with
  | some engine => (.equipped goal (some engine), h)
  | none =>
    let (answer, hardware) := Hardware.loadEngine h.synth.hardware
    let asked := (update h fun d => { d with hardware }).record .loadEngine
    match answer with
    | .raised fault => (.equipped goal none, warn "JZZ is unavailable: " (some fault) asked)
    | answer => (.asked goal answer, asked)

omit [Hardware σ] in
/-- Takes what came when an engine was asked for. -/
def receive (answer : EngineAnswer) (h : Host (Device σ α) α) :
    Option Engine × Host (Device σ α) α :=
  match answer with
  | .engine engine => (some engine, update h fun d => { d with engine := some engine })
  | .unusable => (none, h.say .warning (notice "JZZ returned no usable engine"))
  | .rejected fault | .raised fault => (none, warn "JZZ is unavailable: " (some fault) h)

/-! ## Outputs -/

/-- The outputs that an engine tells of; none without an engine. -/
def outputsFrom (engine? : Option Engine) (h : Host (Device σ α) α) :
    Except Fault (List OutputInfo) × Host (Device σ α) α :=
  match engine? with
  | none => (.ok [], h)
  | some engine =>
    let (answer, hardware) := Hardware.info engine h.synth.hardware
    (answer.map outputsOf, update h fun d => { d with hardware })

/-- Opens an output. The port open before is closed only once there is a new one. -/
def openOutput (engine : Engine) (output : OutputInfo) (h : Host (Device σ α) α) :
    Bool × Host (Device σ α) α :=
  let (answer, hardware) := Hardware.openOutput engine output.index h.synth.hardware
  let h := update h fun d => { d with hardware }
  match answer with
  | .port port =>
    let closed := closeOutput (h.record (.openOutput output.index (some port)))
    (true, update closed fun d => { d with output := some port, selected := some output })
  | .unusable =>
    (false, (h.record (.openOutput output.index none)).say .warning
      (notice ("Output \"" ++ output.name ++ "\" did not open")))
  | .raised fault =>
    (false, warn "Failed to open MIDI output: " (some fault)
      (h.record (.openOutput output.index none)))

/-- Selects the output with an identifier; false if there is none. -/
def selectFrom (engine? : Option Engine) (id : String) (h : Host (Device σ α) α) :
    Except Fault Bool × Host (Device σ α) α :=
  match engine? with
  | none => (.ok false, h)
  | some engine =>
    match outputsFrom (some engine) h with
    | (.error fault, h) => (.error fault, h)
    | (.ok outputs, h) =>
      match outputs.find? (·.id = id) with
      | none => (.ok false, h)
      | some output =>
        let (opened, h) := openOutput engine output h
        (.ok opened, h)

/-! ## Steps -/

/-- Ends the initialization. -/
def finishInitialization (h : Host (Device σ α) α) : Task × Host (Device σ α) α :=
  let h := update h fun d => { d with initialized := true }
  (.done (.initialized h.synth.output.isSome), h)

namespace Task

/-- A call that is made. -/
def ofRequest (request : Request) (h : Host (Device σ α) α) : Task × Host (Device σ α) α :=
  match request with
  | .start =>
    if h.synth.initialized then (.done (.initialized h.synth.output.isSome), h)
    else askFor .firstList h
  | .listOutputs => askFor .list h
  | .selectOutput id => askFor (.select id) h

/-- What becomes of a task whose engine is there, or known not to come. -/
def useEngine (goal : Goal) (engine? : Option Engine) (h : Host (Device σ α) α) :
    Task × Host (Device σ α) α :=
  match goal with
  | .list =>
    match outputsFrom engine? h with
    | (.ok outputs, h) => (.done (.outputs outputs), h)
    | (.error fault, h) => (.done (.failed fault), h)
  | .select id =>
    match selectFrom engine? id h with
    | (.ok isDone, h) => (.done (.selected isDone), h)
    | (.error fault, h) => (.done (.failed fault), h)
  | .firstList =>
    let (outcome, h) := outputsFrom engine? h
    (.listed outcome, h)
  | .firstSelect first =>
    let (outcome, h) := selectFrom engine? first.id h
    (.chosen first outcome, h)

/-- Goes on with a task up to where it waits again. -/
def step (task : Task) (h : Host (Device σ α) α) : Task × Host (Device σ α) α :=
  match task with
  | asked goal answer =>
    let (engine?, h) := receive answer h
    (equipped goal engine?, h)
  | equipped goal engine? => useEngine goal engine? h
  | listed (.ok (first :: _)) => askFor (.firstSelect first) h
  | listed (.ok []) =>
    finishInitialization (h.say .warning (notice "No MIDI outputs available"))
  | listed (.error fault) =>
    finishInitialization (warn "JZZ initialization failed: " (some fault) h)
  | chosen first (.ok _) =>
    finishInitialization (h.say .info (notice ("Using output \"" ++ first.name ++ "\"")))
  | chosen _ (.error fault) =>
    finishInitialization (warn "JZZ initialization failed: " (some fault) h)
  | done result => (done result, h)

/-! ## The end of a task -/

/-- How many steps a task may take behind the use of an engine. -/
def ranksBehind : Goal → Nat
  | .firstList => 4
  | .firstSelect _ => 1
  | .list | .select _ => 0

/-- How many steps a task may still take. -/
def rank : Task → Nat
  | asked goal _ => ranksBehind goal + 2
  | equipped goal _ => ranksBehind goal + 1
  | listed _ => 4
  | chosen _ _ => 1
  | done _ => 0

theorem rank_askFor_le (goal : Goal) (h : Host (Device σ α) α) :
    (askFor goal h).1.rank ≤ ranksBehind goal + 2 := by
  unfold askFor
  split
  · exact Nat.le_succ _
  · dsimp only
    split
    · exact Nat.le_succ _
    · exact Nat.le_refl _

theorem rank_useEngine_le (goal : Goal) (engine? : Option Engine) (h : Host (Device σ α) α) :
    (useEngine goal engine? h).1.rank ≤ ranksBehind goal := by
  cases goal <;> unfold useEngine <;> dsimp only
  · split <;> exact Nat.le_refl _
  · split <;> exact Nat.le_refl _
  · exact Nat.le_refl _
  · exact Nat.le_refl _

/-- Every step brings a task closer to its end. -/
theorem rank_step_lt (task : Task) (h : Host (Device σ α) α) (hpos : 0 < task.rank) :
    (task.step h).1.rank < task.rank := by
  match task with
  | asked goal answer => exact Nat.lt_succ_self _
  | equipped goal engine? => exact Nat.lt_succ_of_le (rank_useEngine_le goal engine? h)
  | listed (.ok (first :: _)) => exact Nat.lt_succ_of_le (rank_askFor_le (.firstSelect first) h)
  | listed (.ok []) => exact hpos
  | listed (.error _) => exact hpos
  | chosen _ (.ok _) => exact hpos
  | chosen _ (.error _) => exact hpos
  | done _ => exact absurd hpos (Nat.lt_irrefl 0)

/-- How a task ended, if it has. -/
def result? : Task → Option Result
  | done result => some result
  | _ => none

theorem rank_pos_of_result?_eq_none {task : Task} (h : task.result? = none) : 0 < task.rank := by
  cases task with
  | done result => exact absurd h (Option.some_ne_none result)
  | _ => exact Nat.succ_pos _

/-- Takes a task to its end without anything in between. -/
def complete (task : Task) (h : Host (Device σ α) α) : Result × Host (Device σ α) α :=
  match _ended : task.result? with
  | some result => (result, h)
  | none =>
    let next := task.step h
    complete next.1 next.2
termination_by task.rank
decreasing_by exact rank_step_lt _ _ (rank_pos_of_result?_eq_none ‹_›)

end Task

/-- Makes a call and waits for its end. -/
def request (r : Request) (h : Host (Device σ α) α) : Result × Host (Device σ α) α :=
  let (task, h) := Task.ofRequest r h
  task.complete h

end LeadSheet.Device
