import LeadSheet.Proofs.Device.Usage

/-!
# Errors of ports go no further

An error that a port raises when a message is sent, or when it is closed, is reported to the user,
and nothing else comes of it. To say so, a device is compared with one over a `Muffled` system, the
same system with ports that raise no errors. Whatever is asked of the two, they come to the same,
apart from what they have said to the user (`Usage.Alike.run`): no call ends in another way, nothing
else is asked of the outside, and no timer is started or stopped.
-/

namespace LeadSheet.Device

open Playback (Alarm Call Clock Fault Host Level Notice Order Port Timer)

variable {σ α : Type}

/-- A MIDI system whose ports raise no errors. -/
structure Muffled (σ : Type) where
  system : σ

instance [Hardware σ] : Hardware (Muffled σ) where
  loadEngine m := ((Hardware.loadEngine m.system).1, ⟨(Hardware.loadEngine m.system).2⟩)
  info engine m := ((Hardware.info engine m.system).1, ⟨(Hardware.info engine m.system).2⟩)
  openOutput engine index m :=
    ((Hardware.openOutput engine index m.system).1,
      ⟨(Hardware.openOutput engine index m.system).2⟩)
  send port message m := (none, ⟨(Hardware.send port message m.system).2⟩)
  close port m := (none, ⟨(Hardware.close port m.system).2⟩)

/-- A device over the system with its ports muffled. -/
def muffle (d : Device σ α) : Device (Muffled σ) α :=
  { hardware := ⟨d.hardware⟩, engine := d.engine, output := d.output, selected := d.selected
    pending := d.pending, disposed := d.disposed, initialized := d.initialized
    startTime := d.startTime }

section

variable (d : Device σ α)

@[simp] theorem muffle_engine : (muffle d).engine = d.engine := rfl

@[simp] theorem muffle_output : (muffle d).output = d.output := rfl

@[simp] theorem muffle_disposed : (muffle d).disposed = d.disposed := rfl

@[simp] theorem muffle_initialized : (muffle d).initialized = d.initialized := rfl

variable [Hardware σ]

/-- Muffling changes nothing about how an engine is loaded. -/
@[simp] theorem loadEngine_muffle : (Hardware.loadEngine (muffle d).hardware).1
    = (Hardware.loadEngine d.hardware).1 := rfl

/-- Muffling changes nothing about how a port is opened. -/
@[simp] theorem openOutput_muffle (engine : Engine) (index : Nat) :
    (Hardware.openOutput engine index (muffle d).hardware).1
      = (Hardware.openOutput engine index d.hardware).1 := rfl

end

/-- Two hosts that differ in the ports being muffled, and perhaps in what was said to the user. -/
structure Alike (h : Host (Device σ α) α) (m : Host (Device (Muffled σ) α) α) : Prop where
  clock : m.clock = h.clock
  calls : m.calls = h.calls
  synth : m.synth = muffle h.synth

/-- Two answers that are the same, with hosts that are alike. -/
structure AlikeWith {β : Type} (x : β × Host (Device σ α) α)
    (y : β × Host (Device (Muffled σ) α) α) : Prop where
  answer : y.1 = x.1
  host : Alike x.2 y.2

theorem AlikeWith.exists_eq {β : Type} {x : β × Host (Device σ α) α}
    {y : β × Host (Device (Muffled σ) α) α} (h : AlikeWith x y) :
    ∃ answer host host', x = (answer, host) ∧ y = (answer, host') ∧ Alike host host' :=
  ⟨x.1, x.2, y.2, rfl, Prod.ext h.answer rfl, h.host⟩

/-! ## Small changes -/

section

variable {h : Host (Device σ α) α} {m : Host (Device (Muffled σ) α) α}

/-- What is alike can be taken to be the muffled host itself. -/
theorem Alike.exists_eq (h' : Alike h m) :
    ∃ notices, m = ⟨h.clock, h.calls, notices, muffle h.synth⟩ := by
  obtain ⟨clock, calls, notices, synth⟩ := m
  obtain ⟨rfl, rfl, rfl⟩ := h'
  exact ⟨notices, rfl⟩

theorem alike_mk (h : Host (Device σ α) α) (notices : List Notice) :
    Alike h ⟨h.clock, h.calls, notices, muffle h.synth⟩ := ⟨rfl, rfl, rfl⟩

/-- Both systems go on as the same request makes them. -/
theorem alike_withHardware (h : Host (Device σ α) α) (notices : List Notice) (hardware : σ) :
    Alike (update h fun d => { d with hardware })
      (update ⟨h.clock, h.calls, notices, muffle h.synth⟩ fun d =>
        { d with hardware := ⟨hardware⟩ }) :=
  ⟨rfl, rfl, rfl⟩

theorem Alike.say (ha : Alike h m) (level : Level) (text : String) :
    Alike (h.say level text) (m.say level text) := ⟨ha.clock, ha.calls, ha.synth⟩

/-- A warning makes no difference, whether it is given on one side or on both. -/
theorem Alike.warn (ha : Alike h m) (text : String) (fault? fault?' : Option Fault) :
    Alike (warn text fault? h) (warn text fault?' m) := by
  cases fault? <;> cases fault?' <;> exact ⟨ha.clock, ha.calls, ha.synth⟩

theorem Alike.record (ha : Alike h m) (call : Call α) : Alike (h.record call) (m.record call) :=
  ⟨ha.clock, congrArg (· ++ [call]) ha.calls, ha.synth⟩

/-! ## Orders -/

variable [Hardware σ]

theorem Alike.send (ha : Alike h m) (message : List UInt8) :
    Alike (send message h) (send message m) := by
  obtain ⟨notices, rfl⟩ := ha.exists_eq
  unfold Device.send
  cases hport : h.synth.output with
  | none =>
    rw [muffle_output, hport]
    exact alike_mk h notices
  | some port =>
    rw [muffle_output, hport]
    exact ((alike_withHardware h notices _).record _).warn _ _ none

theorem Alike.sendAll (ha : Alike h m) (messages : List (List UInt8)) :
    Alike (sendAll messages h) (sendAll messages m) := by
  induction messages generalizing h m with
  | nil => exact ha
  | cons message rest ih => exact ih (ha.send message)

theorem Alike.closeOutput (ha : Alike h m) : Alike (closeOutput h) (closeOutput m) := by
  obtain ⟨notices, rfl⟩ := ha.exists_eq
  unfold Device.closeOutput
  cases hport : h.synth.output with
  | none =>
    rw [muffle_output, hport]
    exact alike_mk h notices
  | some port =>
    rw [muffle_output, hport]
    have hclosed := ((alike_withHardware h notices
      (Hardware.close port h.synth.hardware).2).record (.close port)).warn
        "Failed to close MIDI output: " (Hardware.close port h.synth.hardware).1 none
    exact ⟨hclosed.clock, hclosed.calls,
      congrArg (fun d => { d with output := none, selected := none }) hclosed.synth⟩

theorem Alike.cancelAll (ha : Alike h m) : Alike (cancelAll h) (cancelAll m) := by
  obtain ⟨notices, rfl⟩ := ha.exists_eq
  unfold Device.cancelAll
  cases hdisposed : h.synth.disposed with
  | true =>
    rw [muffle_disposed, hdisposed]
    exact alike_mk h notices
  | false =>
    rw [muffle_disposed, hdisposed]
    exact Alike.sendAll ⟨rfl, rfl, rfl⟩ silence

theorem Alike.dispose (ha : Alike h m) : Alike (dispose h) (dispose m) := by
  have hclosed := ha.cancelAll.closeOutput
  unfold Device.dispose
  rw [ha.synth, muffle_disposed]
  split
  · exact ha
  · exact ⟨hclosed.clock, hclosed.calls,
      congrArg (fun d => { d with engine := none, disposed := true }) hclosed.synth⟩

theorem Alike.deliver (ha : Alike h m) (number : Nat) (message : List UInt8) :
    Alike (deliver number message h) (deliver number message m) := by
  obtain ⟨notices, rfl⟩ := ha.exists_eq
  have htaken := alike_mk (update h fun d =>
    { d with pending := d.pending.filter (· ≠ number) }) notices
  unfold Device.deliver
  cases hdisposed : h.synth.disposed with
  | true => simpa [update, muffle, hdisposed] using htaken
  | false => simpa [update, muffle, hdisposed] using htaken.send message

variable [Scalar α]

theorem Alike.obey (ha : Alike h m) (order : Order α) : Alike (obey order h) (obey order m) := by
  cases order with
  | setup setup =>
    unfold Device.obey Device.setup
    dsimp only
    rw [ha.synth, muffle_disposed]
    split
    · exact ha
    · exact ha.sendAll _
  | schedule event seconds =>
    -- the delay is worked out from the clock and the start, which are the same
    obtain ⟨notices, rfl⟩ := ha.exists_eq
    unfold Device.obey schedule
    dsimp only
    rw [muffle_disposed, muffle_output]
    split
    · exact alike_mk h notices
    · exact ⟨rfl, rfl, rfl⟩
  | cancelAll => exact ha.cancelAll
  | dispose => exact ha.dispose

theorem Alike.fire (ha : Alike h m) (timer : Timer Alarm α) :
    Alike (fire timer h) (fire timer m) := by
  have hfired : Alike { h with clock := h.clock.fire timer }
      { m with clock := m.clock.fire timer } :=
    ⟨congrArg (·.fire timer) ha.clock, ha.calls, ha.synth⟩
  unfold Device.fire
  dsimp only
  split
  · exact hfired.deliver _ _
  · exact hfired

/-! ## Calls -/

omit [Scalar α]

theorem Alike.askFor (ha : Alike h m) (goal : Goal) :
    AlikeWith (askFor goal h) (askFor goal m) := by
  obtain ⟨notices, rfl⟩ := ha.exists_eq
  unfold Device.askFor
  cases hengine : h.synth.engine with
  | some engine =>
    rw [muffle_engine, hengine]
    exact ⟨rfl, alike_mk h notices⟩
  | none =>
    rw [muffle_engine, hengine]
    -- both systems give the same answer, whatever it is
    cases hanswer : (Hardware.loadEngine h.synth.hardware).1 with
    | raised fault =>
      simp only [loadEngine_muffle, hanswer]
      exact ⟨rfl, ((alike_withHardware h notices _).record _).warn _ (some fault) (some fault)⟩
    | _ =>
      simp only [loadEngine_muffle, hanswer]
      exact ⟨rfl, ⟨rfl, rfl, rfl⟩⟩

omit [Hardware σ] in
theorem Alike.receive (ha : Alike h m) (answer : EngineAnswer) :
    AlikeWith (receive answer h) (receive answer m) := by
  cases answer with
  | engine engine =>
    exact ⟨rfl, ha.clock, ha.calls, congrArg (fun d => { d with engine := some engine }) ha.synth⟩
  | unusable => exact ⟨rfl, ha.say _ _⟩
  | rejected fault | raised fault => exact ⟨rfl, ha.warn _ (some fault) (some fault)⟩

theorem Alike.outputsFrom (ha : Alike h m) (engine? : Option Engine) :
    AlikeWith (outputsFrom engine? h) (outputsFrom engine? m) := by
  cases engine? with
  | none => exact ⟨rfl, ha⟩
  | some engine =>
    obtain ⟨notices, rfl⟩ := ha.exists_eq
    exact ⟨rfl, ⟨rfl, rfl, rfl⟩⟩

theorem Alike.openOutput (ha : Alike h m) (engine : Engine) (output : OutputInfo) :
    AlikeWith (openOutput engine output h) (openOutput engine output m) := by
  obtain ⟨notices, rfl⟩ := ha.exists_eq
  unfold Device.openOutput
  cases hanswer : (Hardware.openOutput engine output.index h.synth.hardware).1 with
  | port port =>
    simp only [openOutput_muffle, hanswer]
    have hclosed := ((alike_withHardware h notices
      (Hardware.openOutput engine output.index h.synth.hardware).2).record
        (.openOutput output.index (some port))).closeOutput
    exact ⟨rfl, hclosed.clock, hclosed.calls,
      congrArg (fun d => { d with output := some port, selected := some output }) hclosed.synth⟩
  | unusable =>
    simp only [openOutput_muffle, hanswer]
    exact ⟨rfl, ⟨rfl, rfl, rfl⟩⟩
  | raised fault =>
    simp only [openOutput_muffle, hanswer]
    exact ⟨rfl, ((alike_withHardware h notices _).record _).warn _ (some fault) (some fault)⟩

theorem Alike.selectFrom (ha : Alike h m) (engine? : Option Engine) (id : String) :
    AlikeWith (selectFrom engine? id h) (selectFrom engine? id m) := by
  cases engine? with
  | none => exact ⟨rfl, ha⟩
  | some engine =>
    obtain ⟨answer, host, host', hx, hy, hhost⟩ := (ha.outputsFrom (some engine)).exists_eq
    unfold Device.selectFrom
    dsimp only
    rw [hx, hy]
    cases answer with
    | error fault => exact ⟨rfl, hhost⟩
    | ok outputs =>
      dsimp only
      split
      · exact ⟨rfl, hhost⟩
      · next output _ =>
        obtain ⟨hopened, hhost⟩ := hhost.openOutput engine output
        exact ⟨congrArg Except.ok hopened, hhost⟩

omit [Hardware σ] in
theorem Alike.finishInitialization (ha : Alike h m) :
    AlikeWith (finishInitialization h) (finishInitialization m) := by
  obtain ⟨notices, rfl⟩ := ha.exists_eq
  exact ⟨rfl, ⟨rfl, rfl, rfl⟩⟩

theorem Alike.ofRequest (ha : Alike h m) (request : Request) :
    AlikeWith (Task.ofRequest request h) (Task.ofRequest request m) := by
  cases request with
  | start =>
    unfold Task.ofRequest
    rw [ha.synth]
    dsimp only
    rw [muffle_initialized]
    split
    · exact ⟨rfl, ha⟩
    · exact ha.askFor .firstList
  | listOutputs => exact ha.askFor .list
  | selectOutput id => exact ha.askFor (.select id)

theorem Alike.useEngine (ha : Alike h m) (goal : Goal) (engine? : Option Engine) :
    AlikeWith (Task.useEngine goal engine? h) (Task.useEngine goal engine? m) := by
  unfold Task.useEngine
  cases goal with
  | list =>
    obtain ⟨answer, host, host', hx, hy, hhost⟩ := (ha.outputsFrom engine?).exists_eq
    dsimp only
    rw [hx, hy]
    cases answer <;> exact ⟨rfl, hhost⟩
  | select id =>
    obtain ⟨answer, host, host', hx, hy, hhost⟩ := (ha.selectFrom engine? id).exists_eq
    dsimp only
    rw [hx, hy]
    cases answer <;> exact ⟨rfl, hhost⟩
  | firstList =>
    obtain ⟨hanswer, hhost⟩ := ha.outputsFrom engine?
    exact ⟨congrArg Task.listed hanswer, hhost⟩
  | firstSelect first =>
    obtain ⟨hanswer, hhost⟩ := ha.selectFrom engine? first.id
    exact ⟨congrArg (Task.chosen first) hanswer, hhost⟩

/-- A call that goes on comes to the same. -/
theorem Alike.step (ha : Alike h m) (task : Task) : AlikeWith (task.step h) (task.step m) := by
  match task with
  | .asked goal answer =>
    obtain ⟨hanswer, hhost⟩ := ha.receive answer
    exact ⟨congrArg (Task.equipped goal) hanswer, hhost⟩
  | .equipped goal engine? => exact ha.useEngine goal engine?
  | .listed (.ok (first :: _)) => exact ha.askFor (.firstSelect first)
  | .listed (.ok []) => exact (ha.say _ _).finishInitialization
  | .listed (.error fault) => exact (ha.warn _ (some fault) (some fault)).finishInitialization
  | .chosen first (.ok _) => exact (ha.say _ _).finishInitialization
  | .chosen _ (.error fault) => exact (ha.warn _ (some fault) (some fault)).finishInitialization
  | .done result => exact ⟨rfl, ha⟩

end

/-! ## Devices in use -/

/-- Two devices in use that differ in their ports being muffled, and perhaps in what was said to the
user. -/
structure Usage.Alike (u : Usage σ α) (m : Usage (Muffled σ) α) : Prop where
  host : Device.Alike u.host m.host
  errands : m.errands = u.errands

namespace Usage

variable [Scalar α] [Hardware σ] {u : Usage σ α} {m : Usage (Muffled σ) α}

theorem Alike.take (ha : u.Alike m) (turn : Turn α) : (u.take turn).Alike (m.take turn) := by
  cases turn with
  | call request =>
    obtain ⟨htask, hhost⟩ := ha.host.ofRequest request
    have herrands : (m.take (.call request)).errands
        = m.errands ++ [⟨request, (Task.ofRequest request m.host).1⟩] := rfl
    refine ⟨hhost, ?_⟩
    rw [herrands, ha.errands, htask]
    rfl
  | resume number =>
    cases herrand : u.errands[number]? with
    | none =>
      rwa [take_resume_of_none herrand, take_resume_of_none (ha.errands ▸ herrand)]
    | some errand =>
      obtain ⟨htask, hhost⟩ := ha.host.step errand.task
      rw [take_resume herrand, take_resume (ha.errands ▸ herrand), htask]
      exact ⟨hhost, by rw [ha.errands]⟩
  | order order => exact ⟨ha.host.obey order, ha.errands⟩
  | pass milliseconds =>
    exact ⟨⟨congrArg (·.jump milliseconds) ha.host.clock, ha.host.calls, ha.host.synth⟩, ha.errands⟩
  | ring =>
    have hnext : m.next? = u.next? := by
      unfold next?
      rw [ha.host.clock]
    cases htimer : u.next? with
    | none => rwa [take_ring_of_none htimer, take_ring_of_none (hnext.trans htimer)]
    | some timer =>
      rw [take_ring htimer, take_ring (hnext.trans htimer)]
      exact ⟨ha.host.fire timer, ha.errands⟩

/-- **Whatever happens, errors of ports change nothing** but what was said to the user. -/
theorem Alike.run (ha : u.Alike m) (turns : List (Turn α)) : (u.run turns).Alike (m.run turns) := by
  induction turns generalizing u m with
  | nil => exact ha
  | cons turn rest ih => exact ih (ha.take turn)

omit [Scalar α] [Hardware σ] in
theorem alike_made (now : α) (hardware : σ) :
    (made now hardware).Alike (made now (⟨hardware⟩ : Muffled σ)) := ⟨⟨rfl, rfl, rfl⟩, rfl⟩

end Usage

end LeadSheet.Device
