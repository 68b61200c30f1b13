import LeadSheet.Proofs.Device.Disposal
import LeadSheet.Proofs.Midi.Message
import Mathlib.Data.List.Nodup

/-!
# What waits on a device

Every timer of a device belongs to an event that was scheduled and is still to be sent. It runs
once, and the device knows that it waits; so `cancelAll` drops every one of them, and nothing waits
on a device that was disposed of (`Booked`). This holds behind every run, and all that is sent are
messages of channels.
-/

namespace LeadSheet.Device

open Playback (Alarm Call Clock Host Order Port Timer)

variable {σ α : Type}

/-! ## Messages -/

section

variable [Scalar α]

theorem isChannelMessage_messageOf (event : TimedEvent α) :
    Midi.IsChannelMessage (messageOf event) := by
  unfold messageOf
  split
  · exact Midi.isChannelMessage_noteOn ..
  · exact Midi.isChannelMessage_noteOff ..

theorem isNote_messageOf (event : TimedEvent α) : Midi.isNote (messageOf event) = true := by
  unfold messageOf
  split
  · exact Midi.isNote_noteOn ..
  · exact Midi.isNote_noteOff ..

end

/-- What is sent behind everything else goes to the port that is open, if there is one. -/
theorem sent_sendAll [Hardware σ] (messages : List (List UInt8)) (h : Host (Device σ α) α) :
    sent (sendAll messages h).calls
      = sent h.calls ++ h.synth.output.toList.flatMap fun port => messages.map (port, ·) := by
  cases hport : h.synth.output with
  | none => simp [sendAll_of_none messages hport]
  | some port => simp [calls_sendAll messages hport, sent]

theorem sent_closeOutput [Hardware σ] (h : Host (Device σ α) α) :
    sent (closeOutput h).calls = sent h.calls := by
  rw [calls_closeOutput]
  simp [sent, closing]

/-! ## What waits -/

variable [Scalar α]

/-- The timers of a device are those of events that wait. -/
structure Booked (h : Host (Device σ α) α) : Prop where
  once : ∀ timer ∈ h.clock.timers, timer.period = none
  event : ∀ timer ∈ h.clock.timers,
    ∃ event : TimedEvent α, timer.action = .message (messageOf event)
  pending : ∀ timer ∈ h.clock.timers, timer.number ∈ h.synth.pending
  started : ∀ timer ∈ h.clock.timers, timer.number < h.clock.started
  ordered : h.clock.timers.Pairwise fun timer later => timer.number < later.number
  disposed : h.synth.disposed = true → h.clock.timers = []
  sent : ∀ entry ∈ sent h.calls, Midi.IsChannelMessage entry.2

namespace Booked

variable {h h' : Host (Device σ α) α}

/-- Nothing else of a device matters to what waits there. -/
theorem of_eq (hb : Booked h) (htimers : h'.clock.timers = h.clock.timers)
    (hstarted : h'.clock.started = h.clock.started)
    (hpending : h'.synth.pending = h.synth.pending)
    (hdisposed : h'.synth.disposed = h.synth.disposed)
    (hsent : ∀ entry ∈ Device.sent h'.calls, Midi.IsChannelMessage entry.2) : Booked h' where
  once := htimers ▸ hb.once
  event := htimers ▸ hb.event
  pending := by
    rw [htimers, hpending]
    exact hb.pending
  started := by
    rw [htimers, hstarted]
    exact hb.started
  ordered := htimers ▸ hb.ordered
  disposed h := htimers.trans (hb.disposed (hdisposed.symm.trans h))
  sent := hsent

theorem undisturbed (hb : Booked h) (hsame : Undisturbed h h')
    (hsent : Device.sent h'.calls = Device.sent h.calls) : Booked h' :=
  hb.of_eq (by rw [hsame.clock]) (by rw [hsame.clock]) hsame.pending hsame.disposed
    (hsent ▸ hb.sent)

/-- Where nothing waits, nothing is asked of what waits. -/
theorem of_nil (htimers : h.clock.timers = [])
    (hsent : ∀ entry ∈ Device.sent h.calls, Midi.IsChannelMessage entry.2) : Booked h where
  once := by simp [htimers]
  event := by simp [htimers]
  pending := by simp [htimers]
  started := by simp [htimers]
  ordered := by simp [htimers]
  disposed _ := htimers
  sent := hsent

/-- The number of a timer tells it from all others. -/
theorem eq_of_number (hb : Booked h) {timer other : Timer Alarm α}
    (hmem : timer ∈ h.clock.timers) (hother : other ∈ h.clock.timers)
    (hnumber : timer.number = other.number) : timer = other := by
  have hnodup : (h.clock.timers.map (·.number)).Nodup :=
    List.pairwise_map.mpr (hb.ordered.imp Nat.ne_of_lt)
  exact List.inj_on_of_nodup_map hnodup hmem hother hnumber

/-- Every timer is among those that are dropped. -/
theorem timers_dropPending (hb : Booked h) : (dropPending h).clock.timers = [] := by
  refine List.eq_nil_iff_forall_not_mem.mpr fun timer hmem => ?_
  obtain ⟨hold, hkept⟩ := Clock.mem_foldl_cancel.mp hmem
  exact hkept (hb.pending timer hold)

variable [Hardware σ]

theorem sendAll (hb : Booked h) {messages : List (List UInt8)}
    (hmessages : ∀ message ∈ messages, Midi.IsChannelMessage message) :
    Booked (sendAll messages h) := by
  obtain ⟨hardware, hsent⟩ := synth_sendAll h messages
  refine hb.of_eq (by rw [clock_sendAll]) (by rw [clock_sendAll]) (by rw [hsent]) (by rw [hsent])
    fun entry hmem => ?_
  rw [sent_sendAll] at hmem
  rcases List.mem_append.mp hmem with hold | hnew
  · exact hb.sent entry hold
  · obtain ⟨port, -, hmem⟩ := List.mem_flatMap.mp hnew
    obtain ⟨message, hmessage, rfl⟩ := List.mem_map.mp hmem
    exact hmessages message hmessage

/-- **Nothing waits any more behind `cancelAll`.** -/
theorem timers_cancelAll (hb : Booked h) : (Device.cancelAll h).clock.timers = [] := by
  cases halive : h.synth.disposed with
  | true =>
    rw [Device.cancelAll, if_pos halive]
    exact hb.disposed halive
  | false =>
    rw [cancelAll_of_alive halive, clock_sendAll]
    exact hb.timers_dropPending

theorem cancelAll (hb : Booked h) : Booked (cancelAll h) := by
  cases halive : h.synth.disposed with
  | true => rwa [Device.cancelAll, if_pos halive]
  | false =>
    rw [cancelAll_of_alive halive]
    exact (of_nil (h := dropPending h) hb.timers_dropPending hb.sent).sendAll
      fun _ hmem => (of_mem_silence hmem).1

theorem timers_dispose (hb : Booked h) : (Device.dispose h).clock.timers = [] := by
  unfold Device.dispose
  split
  · exact hb.disposed ‹_›
  · simp only [update, clock_closeOutput]
    exact hb.timers_cancelAll

theorem dispose (hb : Booked h) : Booked (dispose h) := by
  refine of_nil hb.timers_dispose ?_
  unfold Device.dispose
  split
  · exact hb.sent
  · simp only [update, sent_closeOutput]
    exact hb.cancelAll.sent

omit [Hardware σ] in
theorem schedule (hb : Booked h) (event : TimedEvent α) (seconds : α) :
    Booked (schedule event seconds h) := by
  unfold Device.schedule
  split
  · exact hb
  · next hopen =>
    refine {
      once := List.forall_mem_append.mpr ⟨hb.once, by simp⟩
      event := List.forall_mem_append.mpr ⟨hb.event, by simp⟩
      pending := List.forall_mem_append.mpr
        ⟨fun timer hmem => List.mem_append_left _ (hb.pending timer hmem), by simp [update]⟩
      started := List.forall_mem_append.mpr
        ⟨fun timer hmem => Nat.lt_succ_of_lt (hb.started timer hmem), ?_⟩
      ordered := List.pairwise_append.mpr ⟨hb.ordered, List.pairwise_singleton .., ?_⟩
      disposed := fun hdisposed => absurd (Bool.or_eq_true_iff.mpr (.inl hdisposed)) hopen
      sent := hb.sent }
    · intro timer hmem
      obtain rfl := List.mem_singleton.mp hmem
      exact Nat.lt_succ_self _
    · -- all timers that wait were started before
      intro timer hold new hmem
      obtain rfl := List.mem_singleton.mp hmem
      exact hb.started timer hold

theorem obey (hb : Booked h) (order : Order α) : Booked (obey order h) := by
  cases order with
  | setup setup =>
    unfold Device.obey Device.setup
    dsimp only
    split
    · exact hb
    · exact hb.sendAll fun _ hmem => (of_mem_setupMessages hmem).1
  | schedule event seconds => exact hb.schedule event seconds
  | cancelAll => exact hb.cancelAll
  | dispose => exact hb.dispose

/-! ## Timers that run -/

/-- **A timer that runs is gone**, and the device knows it. -/
theorem fire (hb : Booked h) {timer : Timer Alarm α} (hmem : timer ∈ h.clock.timers) :
    Booked (fire timer h) := by
  obtain ⟨event, haction⟩ := hb.event timer hmem
  have hleft := Clock.timers_fire_of_once timer hb.once
  have hothers {left : Timer Alarm α} (hmem : left ∈ (h.clock.fire timer).timers) :
      left ∈ h.clock.timers ∧ left.number ≠ timer.number := by
    rw [hleft] at hmem
    simpa using hmem
  have htaken : Booked (update { h with clock := h.clock.fire timer } fun d =>
      { d with pending := d.pending.filter (· ≠ timer.number) }) := {
    once := fun left hmem => hb.once left (hothers hmem).1
    event := fun left hmem => hb.event left (hothers hmem).1
    pending := fun left hmem => List.mem_filter.mpr
      ⟨hb.pending left (hothers hmem).1, decide_eq_true (hothers hmem).2⟩
    started := fun left hmem => hb.started left (hothers hmem).1
    ordered := by
      dsimp only [update]
      rw [hleft]
      exact hb.ordered.filter _
    disposed := fun hdisposed => by
      dsimp only [update]
      rw [hleft, hb.disposed hdisposed, List.filter_nil]
    sent := hb.sent }
  unfold Device.fire
  rw [haction]
  dsimp only
  unfold deliver
  dsimp only
  split
  · exact htaken
  · have hmessages : ∀ message ∈ [messageOf event], Midi.IsChannelMessage message :=
      fun message hmem => List.mem_singleton.mp hmem ▸ isChannelMessage_messageOf event
    exact htaken.sendAll hmessages

/-! ## Every run -/

variable {u : Usage σ α}

theorem take (hb : Booked u.host) (turn : Turn α) : Booked (u.take turn).host := by
  cases u.happening turn with
  | idle _ hidle => exact hb.undisturbed hidle.toUndisturbed hidle.sent_eq
  | opens _ _ _ hopens => exact hb.undisturbed hopens.toUndisturbed hopens.sent_eq
  | obeys order _ hhost => exact hhost ▸ hb.obey order
  | passes _ _ hhost =>
    rw [hhost]
    exact hb.of_eq rfl rfl rfl rfl hb.sent
  | fires timer _ hwaiting hhost => exact hhost ▸ hb.fire hwaiting

theorem run (hb : Booked u.host) (turns : List (Turn α)) : Booked (u.run turns).host :=
  Usage.run_induction (motive := fun u => Booked u.host) (fun _ turn h => h.take turn) hb turns

omit [Hardware σ] in
theorem made (now : α) (hardware : σ) : Booked (Usage.made now hardware).host :=
  of_nil rfl (by simp [Usage.made, startingAt, Host.startingAt, Device.sent])

end Booked

end LeadSheet.Device
