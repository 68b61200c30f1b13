import LeadSheet.Proofs.Device.Step
import LeadSheet.Proofs.Playback.Due

/-!
# A device in use

Calls may be made on a device while others still wait on the way, and whatever waits goes on at some
later time; orders come in between, time passes, and timers run. `Usage` is a device with all calls
that were ever made on it, and a `Turn` is what happens between two points at which everything
waits. A list of turns is a run, in any order that there can be.

Whatever happens, little of it matters to the output of a device. A call that goes on is idle, or it
opens an output in place of the one before (`Task.step_cases`); apart from this, a turn sends
messages to the port that is open, or it is the disposal, which closes that port
(`Usage.effect_take`).
-/

namespace LeadSheet.Device

open Playback (Alarm Call Clock Fault Host Level Order Port Timer)

variable {σ α : Type}

/-! ## Turns -/

/-- A call that was made, and where it stands. -/
structure Errand where
  request : Request
  task : Task

/-- A device, and the calls that were made on it. -/
structure Usage (σ α : Type) where
  host : Host (Device σ α) α
  /-- All calls that were ever made, in order. -/
  errands : List Errand

/-- Something that happens without anything in between. -/
inductive Turn (α : Type) where
  /-- A call is made, and goes on to where it first waits. -/
  | call (request : Request)
  /-- A call, given by how many were made before it, goes on to where it waits again. -/
  | resume (number : Nat)
  | order (order : Order α)
  /-- Time passes, and no timer runs. -/
  | pass (milliseconds : α)
  /-- The timer that is due first runs, if there is any; it may be late. -/
  | ring
  deriving DecidableEq, Repr

section

variable [Scalar α] [Hardware σ]

/-- A timer runs. -/
def fire (timer : Timer Alarm α) (h : Host (Device σ α) α) : Host (Device σ α) α :=
  let fired := { h with clock := h.clock.fire timer }
  match timer.action with
  | .message bytes => deliver timer.number bytes fired
  | .loop => fired

namespace Usage

/-- A device that was just made. -/
def made (now : α) (hardware : σ) : Usage σ α := ⟨startingAt now hardware, []⟩

/-- The timer that runs next. -/
def next? (u : Usage σ α) : Option (Timer Alarm α) := Clock.earliest? u.host.clock.timers

/-- A turn is taken. -/
def take (u : Usage σ α) : Turn α → Usage σ α
  | .call request =>
    let (task, host) := Task.ofRequest request u.host
    ⟨host, u.errands ++ [⟨request, task⟩]⟩
  | .resume number =>
    match u.errands[number]? with
    | none => u
    | some errand =>
      let (task, host) := errand.task.step u.host
      ⟨host, u.errands.set number { errand with task }⟩
  | .order order => { u with host := obey order u.host }
  | .pass milliseconds =>
    { u with host := { u.host with clock := u.host.clock.jump milliseconds } }
  | .ring =>
    match u.next? with
    | none => u
    | some timer => { u with host := fire timer u.host }

/-- Turns are taken, one after the other. -/
def run (u : Usage σ α) (turns : List (Turn α)) : Usage σ α := turns.foldl take u

@[simp] theorem run_nil (u : Usage σ α) : u.run [] = u := rfl

@[simp] theorem run_cons (u : Usage σ α) (turn : Turn α) (turns : List (Turn α)) :
    u.run (turn :: turns) = (u.take turn).run turns := rfl

theorem run_append (u : Usage σ α) (turns more : List (Turn α)) :
    u.run (turns ++ more) = (u.run turns).run more := List.foldl_append

theorem take_resume {u : Usage σ α} {number : Nat} {errand : Errand}
    (herrand : u.errands[number]? = some errand) :
    u.take (.resume number) = ⟨(errand.task.step u.host).2,
      u.errands.set number { errand with task := (errand.task.step u.host).1 }⟩ := by
  unfold take
  dsimp only
  rw [herrand]

theorem take_resume_of_none {u : Usage σ α} {number : Nat} (hnone : u.errands[number]? = none) :
    u.take (.resume number) = u := by
  unfold take
  dsimp only
  rw [hnone]

theorem take_ring {u : Usage σ α} {timer : Timer Alarm α} (hnext : u.next? = some timer) :
    u.take .ring = { u with host := fire timer u.host } := by
  unfold take
  rw [hnext]

theorem take_ring_of_none {u : Usage σ α} (hnext : u.next? = none) : u.take .ring = u := by
  unfold take
  rw [hnext]

theorem errands_take_ring (u : Usage σ α) : (u.take .ring).errands = u.errands := by
  cases hnext : u.next? with
  | none => rw [take_ring_of_none hnext]
  | some timer => rw [take_ring hnext]

/-- **What every turn preserves holds behind every run.** -/
theorem run_induction {motive : Usage σ α → Prop}
    (htake : ∀ u turn, motive u → motive (u.take turn)) {u : Usage σ α} (h : motive u)
    (turns : List (Turn α)) : motive (u.run turns) := by
  induction turns generalizing u with
  | nil => exact h
  | cons turn rest ih => exact ih (htake u turn h)

end Usage

end

/-! ## What happens in a turn -/

/-- What happens to the host in a turn. -/
inductive Usage.Happening [Scalar α] [Hardware σ] (u : Usage σ α) (turn : Turn α) : Prop where
  | idle (called : ∀ order, turn ≠ .order order) (idle : Idle u.host (u.take turn).host)
  | opens (called : ∀ order, turn ≠ .order order) (info : OutputInfo) (port : Port)
      (opens : Opens info port u.host (u.take turn).host)
  | obeys (order : Order α) (turn_eq : turn = .order order)
      (host : (u.take turn).host = obey order u.host)
  | passes (milliseconds : α) (turn_eq : turn = .pass milliseconds)
      (host : (u.take turn).host = { u.host with clock := u.host.clock.jump milliseconds })
  | fires (timer : Timer Alarm α) (turn_eq : turn = .ring)
      (waiting : timer ∈ u.host.clock.timers) (host : (u.take turn).host = fire timer u.host)

theorem Usage.happening [Scalar α] [Hardware σ] (u : Usage σ α) (turn : Turn α) :
    u.Happening turn := by
  cases turn with
  | call request => exact .idle nofun (idle_ofRequest request u.host)
  | resume number =>
    cases herrand : u.errands[number]? with
    | none =>
      refine .idle nofun ?_
      rw [take_resume_of_none herrand]
      exact .refl u.host
    | some errand =>
      have hhost : (u.take (.resume number)).host = (errand.task.step u.host).2 := by
        rw [take_resume herrand]
      rcases errand.task.step_cases u.host with hidle | ⟨⟨info, port, hopens⟩, -⟩
      · exact .idle nofun (hhost ▸ hidle)
      · exact .opens nofun info port (hhost ▸ hopens)
  | order order => exact .obeys order rfl rfl
  | pass milliseconds => exact .passes milliseconds rfl rfl
  | ring =>
    cases hnext : u.next? with
    | none =>
      refine .idle nofun ?_
      rw [take_ring_of_none hnext]
      exact .refl u.host
    | some timer =>
      exact .fires timer rfl (Clock.mem_of_earliest? hnext) (by rw [take_ring hnext])

/-! ## What a turn does to the output -/

/-- What a turn does to the output of a device. -/
inductive Effect (h h' : Host (Device σ α) α) : Prop where
  /-- The output stays, and messages are sent nowhere but to its port. -/
  | stays (more : List (Call α)) (calls : h'.calls = h.calls ++ more)
      (sent : ∀ call ∈ more, GainsNothing call ∨
        ∃ port message, h.synth.output = some port ∧ call = .send port message)
      (output : h'.synth.output = h.synth.output) (selected : h'.synth.selected = h.synth.selected)
  | opens (info : OutputInfo) (port : Port) (opens : Opens info port h h')
  /-- The port is closed behind the silence. -/
  | closes (port : Port) (output : h.synth.output = some port)
      (calls : h'.calls = h.calls ++ (silence.map (.send port) ++ [.close port]))
      (closed : h'.synth.output = none) (selected : h'.synth.selected = none)

section

variable {h h' : Host (Device σ α) α}

theorem Idle.effect (hidle : Idle h h') : Effect h h' := by
  obtain ⟨more, hcalls, hmore⟩ := hidle.calls
  exact .stays more hcalls (fun call hmem => .inl (hmore call hmem)) hidle.output hidle.selected

variable [Hardware σ]

theorem sendAll_of_none (messages : List (List UInt8)) (hnone : h.synth.output = none) :
    sendAll messages h = h := by
  induction messages with
  | nil => rfl
  | cons message rest ih =>
    have hfirst : send message h = h := by
      unfold send
      rw [hnone]
    rw [sendAll, List.foldl_cons, hfirst]
    exact ih

/-- Sending leaves the output as it is, whatever was done to the timers before. -/
theorem effect_sendAll (messages : List (List UInt8)) (hcalls : h'.calls = h.calls)
    (houtput : h'.synth.output = h.synth.output)
    (hselected : h'.synth.selected = h.synth.selected) : Effect h (sendAll messages h') := by
  cases hport : h.synth.output with
  | none =>
    rw [sendAll_of_none messages (houtput.trans hport)]
    exact .stays [] (by rw [hcalls, List.append_nil]) (by simp) houtput hselected
  | some port =>
    obtain ⟨hardware, hsent⟩ := synth_sendAll h' messages
    refine .stays (messages.map (.send port)) ?_ (fun call hmem => ?_) ?_ ?_
    · rw [calls_sendAll messages (houtput.trans hport), hcalls]
    · obtain ⟨message, -, rfl⟩ := List.mem_map.mp hmem
      exact .inr ⟨port, message, hport, rfl⟩
    · rw [hsent, houtput]
    · rw [hsent, hselected]

theorem effect_cancelAll (h : Host (Device σ α) α) : Effect h (cancelAll h) := by
  cases halive : h.synth.disposed with
  | true =>
    rw [cancelAll, if_pos halive]
    exact (Idle.refl h).effect
  | false =>
    rw [cancelAll_of_alive halive]
    exact effect_sendAll silence rfl rfl rfl

theorem effect_dispose (h : Host (Device σ α) α) : Effect h (dispose h) := by
  cases halive : h.synth.disposed with
  | true =>
    rw [dispose, if_pos halive]
    exact (Idle.refl h).effect
  | false =>
    rw [dispose, if_neg (by simp [halive]), cancelAll_of_alive halive]
    obtain ⟨hardware, hsent⟩ := synth_sendAll (dropPending h) silence
    have hsame : (sendAll silence (dropPending h)).synth.output = h.synth.output := by
      rw [hsent]
      rfl
    cases hport : h.synth.output with
    | none =>
      -- there is no port, and so neither silence nor anything to close
      have hnone : closeOutput (sendAll silence (dropPending h)) = dropPending h := by
        rw [sendAll_of_none silence (h := dropPending h) hport, closeOutput,
          show (dropPending h).synth.output = none from hport]
      rw [hnone]
      exact .stays [] (List.append_nil _).symm (by simp) rfl rfl
    | some port =>
      have hclosed := calls_closeOutput (h := sendAll silence (dropPending h))
      rw [hsame, hport, calls_sendAll silence (h := dropPending h) hport, List.append_assoc]
        at hclosed
      refine .closes port hport hclosed ?_ ?_ <;>
      · unfold closeOutput
        rw [hsame, hport]
        rfl

variable [Scalar α]

omit [Hardware σ] in
theorem effect_schedule (event : TimedEvent α) (seconds : α) (h : Host (Device σ α) α) :
    Effect h (schedule event seconds h) := by
  unfold schedule
  split
  · exact (Idle.refl h).effect
  · exact .stays [] (List.append_nil _).symm (by simp) rfl rfl

theorem effect_obey (order : Order α) (h : Host (Device σ α) α) : Effect h (obey order h) := by
  cases order with
  | setup setup =>
    unfold obey Device.setup
    dsimp only
    split
    · exact (Idle.refl h).effect
    · exact effect_sendAll _ rfl rfl rfl
  | schedule event seconds => exact effect_schedule event seconds h
  | cancelAll => exact effect_cancelAll h
  | dispose => exact effect_dispose h

theorem effect_fire (timer : Timer Alarm α) (h : Host (Device σ α) α) :
    Effect h (fire timer h) := by
  unfold fire
  dsimp only
  split
  · next bytes _ =>
    unfold deliver
    dsimp only
    split
    · exact .stays [] (List.append_nil _).symm (by simp) rfl rfl
    · exact effect_sendAll [bytes] rfl rfl rfl
  · exact .stays [] (List.append_nil _).symm (by simp) rfl rfl

/-- **What a turn does to the output**: nothing but to send to its port, or it opens an output, or
it closes the port behind the silence. -/
theorem Usage.effect_take (u : Usage σ α) (turn : Turn α) : Effect u.host (u.take turn).host := by
  cases u.happening turn with
  | idle _ hidle => exact hidle.effect
  | opens _ info port hopens => exact .opens info port hopens
  | obeys order _ hhost => exact hhost ▸ effect_obey order u.host
  | passes milliseconds _ hhost =>
    rw [hhost]
    exact .stays [] (List.append_nil _).symm (by simp) rfl rfl
  | fires timer _ _ hhost => exact hhost ▸ effect_fire timer u.host

/-! ## What becomes of a call -/

/-- The task of a call carries it out. -/
def Errand.Fits (e : Errand) : Prop := e.task.request? = none ∨ e.task.request? = some e.request

/-- What a call comes to: it stays the same call, and what has ended has ended. -/
structure Errand.LeadsTo (e e' : Errand) : Prop where
  request_eq : e'.request = e.request
  done : ∀ result, e.task = .done result → e'.task = .done result

theorem Errand.LeadsTo.refl (e : Errand) : e.LeadsTo e := ⟨rfl, fun _ => id⟩

theorem Errand.LeadsTo.trans {e e' e'' : Errand} (hfirst : e.LeadsTo e') (hthen : e'.LeadsTo e'') :
    e.LeadsTo e'' where
  request_eq := hthen.request_eq.trans hfirst.request_eq
  done result hdone := hthen.done result (hfirst.done result hdone)

namespace Usage

/-- A turn is taken by no call but its own. -/
theorem errands_take (u : Usage σ α) (turn : Turn α) {number : Nat} {e : Errand}
    (he : u.errands[number]? = some e) :
    ∃ e', (u.take turn).errands[number]? = some e' ∧ e.LeadsTo e' := by
  cases turn with
  | call request =>
    exact ⟨e, (List.getElem?_append_left (List.getElem?_eq_some_iff.mp he).1).trans he, .refl e⟩
  | resume other =>
    cases herrand : u.errands[other]? with
    | none =>
      rw [take_resume_of_none herrand]
      exact ⟨e, he, .refl e⟩
    | some errand =>
      rw [take_resume herrand]
      by_cases hsame : other = number
      · subst hsame
        obtain rfl := Option.some.inj (herrand.symm.trans he)
        refine ⟨_, List.getElem?_set_self (List.getElem?_eq_some_iff.mp he).1, rfl, ?_⟩
        intro result hdone
        change (errand.task.step u.host).1 = _
        rw [hdone]
        rfl
      · exact ⟨e, (List.getElem?_set_ne hsame).trans he, .refl e⟩
  | order order => exact ⟨e, he, .refl e⟩
  | pass milliseconds => exact ⟨e, he, .refl e⟩
  | ring =>
    rw [errands_take_ring]
    exact ⟨e, he, .refl e⟩

theorem errands_run (u : Usage σ α) (turns : List (Turn α)) {number : Nat} {e : Errand}
    (he : u.errands[number]? = some e) :
    ∃ e', (u.run turns).errands[number]? = some e' ∧ e.LeadsTo e' := by
  refine run_induction
    (motive := fun later => ∃ e', later.errands[number]? = some e' ∧ e.LeadsTo e')
    (fun later turn ⟨e', he', hleads⟩ => ?_) ⟨e, he, .refl e⟩ turns
  obtain ⟨e'', he'', hthen⟩ := later.errands_take turn he'
  exact ⟨e'', he'', hleads.trans hthen⟩

theorem fits_take {u : Usage σ α} (hfits : ∀ e ∈ u.errands, e.Fits) (turn : Turn α) :
    ∀ e ∈ (u.take turn).errands, e.Fits := by
  cases turn with
  | call request =>
    refine List.forall_mem_append.mpr ⟨hfits, fun e hmem => ?_⟩
    obtain rfl := List.mem_singleton.mp hmem
    exact Task.request?_ofRequest request u.host
  | resume number =>
    cases herrand : u.errands[number]? with
    | none =>
      rw [take_resume_of_none herrand]
      exact hfits
    | some errand =>
      intro e hmem
      rw [take_resume herrand] at hmem
      rcases List.mem_or_eq_of_mem_set hmem with hold | rfl
      · exact hfits e hold
      · rcases Task.request?_step errand.task u.host with hnone | hsame
        · exact .inl hnone
        · exact (hfits errand (List.mem_of_getElem? herrand)).imp hsame.trans hsame.trans
  | order order => exact hfits
  | pass milliseconds => exact hfits
  | ring =>
    rw [errands_take_ring]
    exact hfits

theorem fits_run (now : α) (hardware : σ) (turns : List (Turn α)) :
    ∀ e ∈ ((made now hardware).run turns).errands, e.Fits :=
  run_induction (motive := fun u => ∀ e ∈ u.errands, e.Fits) (fun _ turn h => fits_take h turn)
    (fun _ hmem => by cases hmem) turns

end Usage

end

end LeadSheet.Device
