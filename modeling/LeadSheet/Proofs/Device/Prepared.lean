import LeadSheet.Proofs.Device.Step

/-!
# A device before it is played

Getting a device ready may take any number of calls, and those that wait for an engine may overlap
in any way. Whatever comes of them, and however long it takes, nothing is sent and nothing waits
(`Prepared.unplayed`). So a device whose output is open is tended and quiet to begin with.
-/

namespace LeadSheet.Device

open Playback (Call Host Port)

variable {σ α : Type}

/-- Nothing was ever sent, and no timer was started. -/
structure Unplayed (h : Host (Device σ α) α) : Prop where
  timers : h.clock.timers = []
  pending : h.synth.pending = []
  alive : h.synth.disposed = false
  unsent : ∀ port message, .send port message ∉ h.calls

section

variable {h : Host (Device σ α) α} (hu : Unplayed h)

include hu

theorem Unplayed.quiet : Quiet h where
  pending := hu.pending
  noMessage timer hmem := by
    rw [hu.timers] at hmem
    cases hmem
  hushed before call after port channel hsplit := by
    rintro ⟨data, rfl⟩
    refine absurd ?_ (hu.unsent port (Midi.status 0x90 channel :: data))
    rw [hsplit]
    exact List.mem_append_right _ List.mem_cons_self

theorem Unplayed.tended {port : Port} (hport : h.synth.output = some port) : Tended port h where
  waiting timer hmem := by
    rw [hu.timers] at hmem
    cases hmem
  port_eq other message hmem := absurd hmem (hu.unsent other message)
  output_eq _ := hport
  quiet _ := hu.quiet

/-! ## Calls -/

theorem Unplayed.undisturbed {h' : Host (Device σ α) α} (hsame : Undisturbed h h')
    {more : List (Call α)} (hcalls : h'.calls = h.calls ++ more)
    (hmore : ∀ call ∈ more, ∀ port message, call ≠ .send port message) : Unplayed h' where
  timers := by rw [hsame.clock, hu.timers]
  pending := hsame.pending.trans hu.pending
  alive := hsame.disposed.trans hu.alive
  unsent port message hmem := by
    rw [hcalls] at hmem
    rcases List.mem_append.mp hmem with hold | hnew
    · exact hu.unsent port message hold
    · exact hmore _ hnew port message rfl

theorem Unplayed.idle {h' : Host (Device σ α) α} (hidle : Idle h h') : Unplayed h' := by
  obtain ⟨more, hcalls, hmore⟩ := hidle.calls
  refine hu.undisturbed hidle.toUndisturbed hcalls fun call hmem => ?_
  rcases hmore call hmem with rfl | ⟨index, rfl⟩ <;> simp

variable [Hardware σ]

/-- A call that goes on sends nothing: it is idle, or it opens an output. -/
theorem Unplayed.step (task : Task) : Unplayed (task.step h).2 := by
  rcases task.step_cases h with hidle | ⟨⟨info, port, hopens⟩, -⟩
  · exact hu.idle hidle
  · exact hu.undisturbed hopens.toUndisturbed hopens.calls
      (List.forall_mem_cons.mpr ⟨by simp, fun _ => ne_send_of_mem_closing⟩)

theorem Unplayed.ofRequest (request : Request) : Unplayed (Task.ofRequest request h).2 :=
  hu.idle (idle_ofRequest request h)

end

/-! ## Getting ready -/

variable [Scalar α] [Hardware σ]

/-- What a device can be that was made and got ready: calls are made and go on, in any order, and
time passes. -/
inductive Prepared : Host (Device σ α) α → Prop where
  | made (now : α) (hardware : σ) : Prepared (startingAt now hardware)
  | call {h : Host (Device σ α) α} (request : Request) :
      Prepared h → Prepared (Task.ofRequest request h).2
  | step {h : Host (Device σ α) α} (task : Task) : Prepared h → Prepared (task.step h).2
  | wait {h : Host (Device σ α) α} (milliseconds : α) :
      Prepared h → Prepared { h with clock := h.clock.jump milliseconds }

/-- **Getting a device ready sends nothing and starts no timer.** -/
theorem Prepared.unplayed {h : Host (Device σ α) α} (hp : Prepared h) : Unplayed h := by
  induction hp with
  | made now hardware => exact ⟨rfl, rfl, rfl, fun _ _ hmem => by cases hmem⟩
  | call request _ ih => exact ih.ofRequest request
  | step task _ ih => exact ih.step task
  | wait milliseconds _ ih => exact ⟨ih.timers, ih.pending, ih.alive, ih.unsent⟩

/-- A call that nothing comes in between of is one that goes on to its end. -/
theorem Prepared.request {h : Host (Device σ α) α} (hp : Prepared h) (r : Request) :
    Prepared (request r h).2 := by
  -- a task is followed for as long as it has not ended, which is a `step` each time
  have hcomplete (task : Task) (h : Host (Device σ α) α) (hp : Prepared h) :
      Prepared (task.complete h).2 := by
    fun_induction Task.complete task h with
    | case1 task h result hended => exact hp
    | case2 task h hended next ih => exact ih (hp.step task)
  exact hcomplete _ _ (hp.call r)

end LeadSheet.Device
