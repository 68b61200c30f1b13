import LeadSheet.Device.Task
import LeadSheet.Proofs.Device.Quiet

/-!
# What calls do to a device

A call to a device waits for an engine on its way, and goes on in steps. Most of what it does is
idle: it changes nothing but what the device knows of the MIDI system, and says something to the
user. The one thing that matters to all else is an output that is opened in place of the one before
(`Task.step_cases`). Orders, and timers that run, are no calls.
-/

namespace LeadSheet.Device

open Playback (Call Fault Host Level Port)

variable {σ α : Type}

/-! ## What a step can do -/

/-- A call to the outside that brings no port and sends nothing. -/
def GainsNothing (call : Call α) : Prop :=
  call = .loadEngine ∨ ∃ index, call = .openOutput index none

/-- What waits on a device is as it was, and it was not disposed of in the meantime. -/
structure Undisturbed (h h' : Host (Device σ α) α) : Prop where
  clock : h'.clock = h.clock
  pending : h'.synth.pending = h.synth.pending
  disposed : h'.synth.disposed = h.synth.disposed
  startTime : h'.synth.startTime = h.synth.startTime
  initialized : h.synth.initialized = true → h'.synth.initialized = true

/-- The output stays as it is as well, and nothing is gained. -/
structure Idle (h h' : Host (Device σ α) α) : Prop extends Undisturbed h h' where
  output : h'.synth.output = h.synth.output
  selected : h'.synth.selected = h.synth.selected
  calls : ∃ more, h'.calls = h.calls ++ more ∧ ∀ call ∈ more, GainsNothing call

/-- An output is opened and takes the place of the one before, whose port is closed. -/
structure Opens (info : OutputInfo) (port : Port) (h h' : Host (Device σ α) α) : Prop
    extends Undisturbed h h' where
  output : h'.synth.output = some port
  selected : h'.synth.selected = some info
  calls : h'.calls = h.calls ++ .openOutput info.index (some port) :: closing h.synth.output

section

variable {h h' h'' : Host (Device σ α) α}

theorem Undisturbed.trans (hfirst : Undisturbed h h') (hthen : Undisturbed h' h'') :
    Undisturbed h h'' where
  clock := hthen.clock.trans hfirst.clock
  pending := hthen.pending.trans hfirst.pending
  disposed := hthen.disposed.trans hfirst.disposed
  startTime := hthen.startTime.trans hfirst.startTime
  initialized hinit := hthen.initialized (hfirst.initialized hinit)

theorem Idle.of_calls {h h' : Host (Device σ α) α} (hsame : Undisturbed h h')
    (houtput : h'.synth.output = h.synth.output) (hselected : h'.synth.selected = h.synth.selected)
    (hcalls : h'.calls = h.calls) : Idle h h' where
  toUndisturbed := hsame
  output := houtput
  selected := hselected
  calls := ⟨[], by rw [hcalls, List.append_nil], by simp⟩

theorem Idle.refl (h : Host (Device σ α) α) : Idle h h :=
  .of_calls ⟨rfl, rfl, rfl, rfl, id⟩ rfl rfl rfl

theorem Idle.trans (hfirst : Idle h h') (hthen : Idle h' h'') : Idle h h'' where
  toUndisturbed := hfirst.toUndisturbed.trans hthen.toUndisturbed
  output := hthen.output.trans hfirst.output
  selected := hthen.selected.trans hfirst.selected
  calls := by
    obtain ⟨more, hcalls, hmore⟩ := hfirst.calls
    obtain ⟨rest, hrest, hothers⟩ := hthen.calls
    exact ⟨more ++ rest, by rw [hrest, hcalls, List.append_assoc],
      List.forall_mem_append.mpr ⟨hmore, hothers⟩⟩

/-! ### What is idle -/

theorem idle_say (h : Host (Device σ α) α) (level : Level) (text : String) :
    Idle h (h.say level text) :=
  .of_calls ⟨rfl, rfl, rfl, rfl, id⟩ rfl rfl rfl

theorem idle_warn (text : String) (fault? : Option Fault) (h : Host (Device σ α) α) :
    Idle h (warn text fault? h) := by
  cases fault? with
  | none => exact .refl h
  | some fault => exact idle_say h _ _

theorem idle_record {call : Call α} (hcall : GainsNothing call) : Idle h (h.record call) where
  toUndisturbed := ⟨rfl, rfl, rfl, rfl, id⟩
  output := rfl
  selected := rfl
  calls := ⟨[call], rfl, by simpa using hcall⟩

theorem idle_withHardware (h : Host (Device σ α) α) (hardware : σ) :
    Idle h (update h fun d => { d with hardware }) :=
  .of_calls ⟨rfl, rfl, rfl, rfl, id⟩ rfl rfl rfl

theorem idle_receive (answer : EngineAnswer) (h : Host (Device σ α) α) :
    Idle h (receive answer h).2 := by
  cases answer with
  | engine engine => exact .of_calls ⟨rfl, rfl, rfl, rfl, id⟩ rfl rfl rfl
  | unusable => exact idle_say h _ _
  | rejected fault | raised fault => exact idle_warn _ (some fault) h

theorem idle_finishInitialization (h : Host (Device σ α) α) :
    Idle h (finishInitialization h).2 :=
  .of_calls ⟨rfl, rfl, rfl, rfl, fun _ => rfl⟩ rfl rfl rfl

variable [Hardware σ]

theorem idle_askFor (goal : Goal) (h : Host (Device σ α) α) : Idle h (askFor goal h).2 := by
  unfold askFor
  split
  · exact .refl h
  · have hasked : Idle h ((update h fun d =>
        { d with hardware := (Hardware.loadEngine h.synth.hardware).2 }).record .loadEngine) :=
      (idle_withHardware h _).trans (idle_record (.inl rfl))
    dsimp only
    split
    · dsimp only
      exact hasked.trans (idle_warn _ _ _)
    · exact hasked

theorem idle_outputsFrom (engine? : Option Engine) (h : Host (Device σ α) α) :
    Idle h (outputsFrom engine? h).2 := by
  cases engine? with
  | none => exact .refl h
  | some engine => exact idle_withHardware h _

/-! ### What opens an output -/

theorem undisturbed_closeOutput (h : Host (Device σ α) α) : Undisturbed h (closeOutput h) := by
  obtain ⟨hardware, output, selected, hclosed⟩ := synth_closeOutput (h := h)
  exact ⟨clock_closeOutput, by rw [hclosed], by rw [hclosed], by rw [hclosed],
    by rw [hclosed]; exact id⟩

theorem openOutput_cases (engine : Engine) (info : OutputInfo) (h : Host (Device σ α) α) :
    (openOutput engine info h).1 = false ∧ Idle h (openOutput engine info h).2 ∨
      (openOutput engine info h).1 = true ∧
        ∃ port, Opens info port h (openOutput engine info h).2 := by
  have hasked := idle_withHardware h (Hardware.openOutput engine info.index h.synth.hardware).2
  have hnothing := hasked.trans (idle_record (.inr ⟨info.index, rfl⟩))
  unfold openOutput
  dsimp only
  split
  · next port _ =>
    -- the new port is noted down, and then the old one is closed
    let opened := (update h fun d =>
      { d with hardware := (Hardware.openOutput engine info.index h.synth.hardware).2 }).record
        (.openOutput info.index (some port))
    have hclosed := undisturbed_closeOutput opened
    refine .inr ⟨rfl, port, ⟨hclosed.clock, hclosed.pending, hclosed.disposed, hclosed.startTime,
      hclosed.initialized⟩, rfl, rfl, ?_⟩
    exact (calls_closeOutput (h := opened)).trans (List.append_assoc ..)
  · exact .inl ⟨rfl, hnothing.trans (idle_say _ _ _)⟩
  · dsimp only
    exact .inl ⟨rfl, hnothing.trans (idle_warn _ _ _)⟩

theorem selectFrom_cases (engine? : Option Engine) (id : String) (h : Host (Device σ α) α) :
    Idle h (selectFrom engine? id h).2 ∨
      (∃ info port, Opens info port h (selectFrom engine? id h).2) ∧
        (selectFrom engine? id h).1 = .ok true := by
  unfold selectFrom
  split
  · exact .inl (.refl h)
  · next engine =>
    have hlisted := idle_outputsFrom (some engine) h
    split
    · next hanswer => exact .inl (by rwa [hanswer] at hlisted)
    · next outputs listed hanswer =>
      obtain rfl : update h (fun d =>
          { d with hardware := (Hardware.info engine h.synth.hardware).2 }) = listed :=
        congrArg Prod.snd hanswer
      split
      · exact .inl (idle_withHardware h _)
      · next info _ =>
        dsimp only
        rcases openOutput_cases engine info (update h fun d =>
          { d with hardware := (Hardware.info engine h.synth.hardware).2 }) with
          ⟨-, hidle⟩ | ⟨htrue, port, hopens⟩
        · exact .inl ((idle_withHardware h _).trans hidle)
        · refine .inr ⟨⟨info, port, ⟨?_, hopens.output, hopens.selected, hopens.calls⟩⟩, ?_⟩
          · exact (idle_withHardware h _).toUndisturbed.trans hopens.toUndisturbed
          · rw [htrue]

/-! ### Steps -/

theorem idle_ofRequest (request : Request) (h : Host (Device σ α) α) :
    Idle h (Task.ofRequest request h).2 := by
  cases request with
  | start =>
    unfold Task.ofRequest
    dsimp only
    split
    · exact .refl h
    · exact idle_askFor .firstList h
  | listOutputs => exact idle_askFor .list h
  | selectOutput id => exact idle_askFor (.select id) h

/-- **What a call does that goes on.** It is idle, or it opens an output: this is how selecting an
output ends, and how initialization comes to its last wait. -/
theorem Task.step_cases (task : Task) (h : Host (Device σ α) α) :
    Idle h (task.step h).2 ∨
      (∃ info port, Opens info port h (task.step h).2) ∧
        ((∃ id engine?, task = .equipped (.select id) engine? ∧
            (task.step h).1 = .done (.selected true)) ∨
          ∃ first engine?, task = .equipped (.firstSelect first) engine? ∧
            (task.step h).1 = .chosen first (.ok true)) := by
  match task with
  | .asked goal answer => exact .inl (idle_receive answer h)
  | .equipped goal engine? =>
    unfold Task.step
    cases goal with
    | list =>
      have hlisted := idle_outputsFrom engine? h
      unfold Task.useEngine
      dsimp only
      split <;> next hanswer => exact .inl (by rwa [hanswer] at hlisted)
    | firstList => exact .inl (idle_outputsFrom engine? h)
    | select id =>
      have hcases := selectFrom_cases engine? id h
      unfold Task.useEngine
      dsimp only
      split <;> next hanswer =>
        rw [hanswer] at hcases
        rcases hcases with hidle | ⟨hopens, hresult⟩
        · exact .inl hidle
        · cases hresult
          all_goals exact .inr ⟨hopens, .inl ⟨id, engine?, rfl, rfl⟩⟩
    | firstSelect first =>
      rcases selectFrom_cases engine? first.id h with hidle | ⟨hopens, hresult⟩
      · exact .inl hidle
      · refine .inr ⟨hopens, .inr ⟨first, engine?, rfl, ?_⟩⟩
        exact congrArg (Task.chosen first) hresult
  | .listed (.ok (first :: _)) => exact .inl (idle_askFor (.firstSelect first) h)
  | .listed (.ok []) => exact .inl ((idle_say h _ _).trans (idle_finishInitialization _))
  | .listed (.error fault) => exact .inl ((idle_warn _ _ h).trans (idle_finishInitialization _))
  | .chosen first (.ok _) => exact .inl ((idle_say h _ _).trans (idle_finishInitialization _))
  | .chosen _ (.error fault) => exact .inl ((idle_warn _ _ h).trans (idle_finishInitialization _))
  | .done result => exact .inl (.refl h)

/-! ### Whose step it is -/

/-- The call that an engine is wanted for. -/
def Goal.request : Goal → Request
  | .list => .listOutputs
  | .select id => .selectOutput id
  | .firstList | .firstSelect _ => .start

/-- The call that a task still carries out, if it has not ended. -/
def Task.request? : Task → Option Request
  | .asked goal _ | .equipped goal _ => some goal.request
  | .listed _ | .chosen _ _ => some .start
  | .done _ => none

theorem Task.request?_askFor (goal : Goal) (h : Host (Device σ α) α) :
    (askFor goal h).1.request? = some goal.request := by
  unfold askFor
  split
  · rfl
  · dsimp only
    split <;> rfl

theorem Task.request?_ofRequest (request : Request) (h : Host (Device σ α) α) :
    (Task.ofRequest request h).1.request? = none ∨
      (Task.ofRequest request h).1.request? = some request := by
  cases request with
  | start =>
    unfold Task.ofRequest
    dsimp only
    split
    · exact .inl rfl
    · exact .inr (request?_askFor .firstList h)
  | listOutputs => exact .inr (request?_askFor .list h)
  | selectOutput id => exact .inr (request?_askFor (.select id) h)

/-- A task carries out its call until it ends. -/
theorem Task.request?_step (task : Task) (h : Host (Device σ α) α) :
    (task.step h).1.request? = none ∨ (task.step h).1.request? = task.request? := by
  match task with
  | .asked goal answer => exact .inr rfl
  | .equipped goal engine? =>
    cases goal with
    | list =>
      unfold Task.step Task.useEngine
      dsimp only
      split <;> exact .inl rfl
    | select id =>
      unfold Task.step Task.useEngine
      dsimp only
      split <;> exact .inl rfl
    | firstList | firstSelect first => exact .inr rfl
  | .listed (.ok (first :: _)) => exact .inr (request?_askFor (.firstSelect first) h)
  | .listed (.ok []) => exact .inl rfl
  | .listed (.error fault) => exact .inl rfl
  | .chosen first (.ok _) => exact .inl rfl
  | .chosen _ (.error fault) => exact .inl rfl
  | .done result => exact .inl rfl

end

end LeadSheet.Device
