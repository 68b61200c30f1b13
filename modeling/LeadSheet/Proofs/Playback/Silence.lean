import LeadSheet.Device.Script
import LeadSheet.Playback.Stage
import LeadSheet.Proofs.Device.Prepared
import LeadSheet.Proofs.Number.Exact
import LeadSheet.Proofs.Playback.Commands

/-!
# Silence when not playing

A player on a stage drives a device whose output is open. Users do what they like and timers run in
whatever order: whenever the player is not playing, no timer is left on the clock, and every note
that was ever started was silenced afterwards (`silent_of_not_playing`).

The invariant ties the stage to a `Watch`, which goes along with the commands that are carried out:
the timer of the loop is the stage's own, and where the watch says quiet, the device is quiet. The
player keeps its watch by what `Proofs.Playback.Commands` says of each operation, so that here one
lemma for a command is enough.
-/

namespace LeadSheet.Playback

open Device (Hardware Hushed Prepared Quiet Tended)

variable {σ α : Type}

/-! ## A stage that is watched -/

/-- What a watch says of a stage. -/
structure Watch.Holds (port : Port) (w : Watch) (s : Stage (Device σ α) α) : Prop where
  tended : Tended port s.host
  loops : ∀ timer ∈ s.host.clock.timers, timer.action = .loop → s.loop = some timer.number
  noLoop : w.looping = false → s.loop = none
  quiet : w.quiet = true → Quiet s.host

namespace Watch.Holds

variable {port : Port} {w : Watch} {s : Stage (Device σ α) α} (hw : w.Holds port s)

include hw

/-- A clock with no other timers than before does no harm. -/
theorem withClock {clock : Clock Alarm α}
    (hold : ∀ timer ∈ clock.timers, timer ∈ s.host.clock.timers) :
    w.Holds port { s with host := { s.host with clock } } where
  tended := hw.tended.withClock fun timer hmem _ _ => hold timer hmem
  loops timer hmem haction := hw.loops timer (hold timer hmem) haction
  noLoop := hw.noLoop
  quiet hquiet := (hw.quiet hquiet).withClock fun timer hmem _ _ => hold timer hmem

theorem withPlayer (player : Player α) : w.Holds port { s with player } :=
  ⟨hw.tended, hw.loops, hw.noLoop, hw.quiet⟩

theorem withListener (listener : Listener) : w.Holds port { s with listener } :=
  ⟨hw.tended, hw.loops, hw.noLoop, hw.quiet⟩

theorem record {call : Call α} (hcall : ∀ other message, call ≠ .send other message) :
    w.Holds port { s with host := s.host.record call } where
  tended := hw.tended.record hcall
  loops := hw.loops
  noLoop := hw.noLoop
  quiet hquiet := (hw.quiet hquiet).record fun other _ ⟨_, hsend⟩ => hcall other _ hsend

theorem say (level : Level) (text : String) :
    w.Holds port { s with host := s.host.say level text } :=
  ⟨hw.tended.say level text, hw.loops, hw.noLoop, fun hquiet => (hw.quiet hquiet).say level text⟩

/-! ## Carrying out commands -/

theorem stopLoop : Watch.Holds port { w with looping := false } s.stopLoop := by
  unfold Stage.stopLoop
  split
  · next hnone => exact ⟨hw.tended, hw.loops, fun _ => hnone, hw.quiet⟩
  · next number hsome =>
    have hcancelled : w.Holds port { s with
        host := { s.host with clock := s.host.clock.cancel number } } :=
      hw.withClock fun timer hmem => (Clock.mem_cancel.mp hmem).1
    -- the one timer of the loop is the one that was cancelled
    refine ⟨hcancelled.tended, fun timer hmem haction => ?_, fun _ => rfl, hcancelled.quiet⟩
    obtain ⟨hold, hother⟩ := Clock.mem_cancel.mp hmem
    cases Option.some.inj (hsome.symm.trans (hw.loops timer hold haction))
    exact absurd rfl hother

variable [Scalar α]

theorem startLoop (hidle : w.looping = false) (period : α) :
    Watch.Holds port { w with looping := true } (s.startLoop period) where
  tended := hw.tended.withClock fun timer hmem bytes haction => by
    rcases Clock.mem_start hmem with hold | ⟨-, -, hloop⟩
    · exact hold
    · cases haction.symm.trans hloop
  loops timer hmem haction := by
    rcases Clock.mem_start hmem with hold | ⟨hnumber, -, -⟩
    · -- no loop runs yet
      cases (hw.noLoop hidle).symm.trans (hw.loops timer hold haction)
    · rw [hnumber]
      rfl
  noLoop hstopped := by cases hstopped
  quiet hquiet := (hw.quiet hquiet).withClock fun timer hmem bytes haction => by
    rcases Clock.mem_start hmem with hold | ⟨-, -, hloop⟩
    · exact hold
    · cases haction.symm.trans hloop

variable [Hardware σ]

theorem order {next : Watch} {order : Order α} (hstep : w.step? (.order order) = some next) :
    next.Holds port (s.perform (.order order)) where
  tended := hw.tended.obey order
  loops timer hmem haction := hw.loops timer (Device.mem_of_mem_obey hmem haction) haction
  noLoop hstopped := by
    cases order <;> cases hstep <;> exact hw.noLoop hstopped
  quiet hquiet := by
    cases order with
    | setup setup =>
      cases hstep
      exact hw.tended.quiet_setup (hw.quiet hquiet) setup
    | schedule event seconds =>
      cases hstep
      cases hquiet
    | cancelAll => exact hw.tended.quiet_cancelAll
    | dispose => exact hw.tended.dispose.2

/-- **The watch goes along with every command.** -/
theorem perform {next : Watch} {command : Command α} (hstep : w.step? command = some next) :
    next.Holds port (s.perform command) := by
  cases command with
  | order order => exact hw.order hstep
  | startLoop period =>
    obtain ⟨hidle, rfl⟩ := of_step?_startLoop hstep
    exact hw.startLoop hidle period
  | stopLoop =>
    obtain rfl := Option.some.inj hstep
    exact hw.stopLoop

end Watch.Holds

variable [Scalar α] [Hardware σ]

theorem Watch.Holds.performAll {port : Port} {next : Watch} {commands : List (Command α)} :
    ∀ {w : Watch} {s : Stage (Device σ α) α}, w.Holds port s → w.run? commands = some next →
      next.Holds port (commands.foldl Stage.perform s) := by
  induction commands with
  | nil =>
    intro w s hw hrun
    obtain rfl := Option.some.inj hrun
    exact hw
  | cons command rest ih =>
    intro w s hw hrun
    obtain ⟨between, hstep, hrest⟩ := Option.bind_eq_some_iff.mp hrun
    exact ih (hw.perform hstep) hrest

/-! ## What happens on a stage -/

/-- The stage is as the player expects it to be. -/
def Stage.Kept (port : Port) (s : Stage (Device σ α) α) : Prop :=
  ∃ w : Watch, w.Holds port s ∧ w.Fits s.player

namespace Stage.Kept

variable {port : Port} {s : Stage (Device σ α) α}

theorem carryOut {w : Watch} {reply : Reply α} (hw : w.Holds port s) (hleads : w.LeadsTo reply) :
    Kept port (s.carryOut reply) := by
  obtain ⟨next, hrun, hfits⟩ := hleads
  exact ⟨next, (hw.performAll hrun).withPlayer reply.player, hfits⟩

omit [Scalar α] [Hardware σ] in
theorem noteEnd (h : s.Kept port) : s.noteEnd.Kept port := by
  obtain ⟨w, hw, hfits⟩ := h
  exact ⟨w, hw.record (by simp), hfits⟩

omit [Scalar α] [Hardware σ] in
theorem withListener (h : s.Kept port) (listener : Listener) : Kept port { s with listener } := by
  obtain ⟨w, hw, hfits⟩ := h
  exact ⟨w, hw.withListener listener, hfits⟩

theorem replay : ∀ (times : Nat) {s : Stage (Device σ α) α}, s.Kept port →
    (Stage.replay times s).Kept port
  | 0, _, h => h.withListener _
  | times + 1, s, ⟨w, hw, hfits⟩ => by
    have hplayed := (carryOut hw (hfits.play s.time)).withListener (.replaying times)
    unfold Stage.replay
    dsimp only
    split
    · exact replay times hplayed.noteEnd
    · exact hplayed

/-- Whatever the listener does, the stage is kept. -/
theorem notify (h : s.Kept port) : s.notify.Kept port := by
  unfold Stage.notify
  split
  · exact h
  · exact h.noteEnd
  · obtain ⟨w, hw, hfits⟩ := h.noteEnd
    exact ⟨w, hw.say _ _, hfits⟩
  · exact replay _ h.noteEnd

theorem settle {w : Watch} {reply : Reply α} (hw : w.Holds port s) (hleads : w.LeadsTo reply) :
    Kept port (s.settle reply) := by
  unfold Stage.settle
  split
  · exact (carryOut hw hleads).notify
  · exact carryOut hw hleads

end Stage.Kept

/-! ## Timers -/

omit [Hardware σ] in
theorem Watch.Holds.fire {port : Port} {w : Watch} {s : Stage (Device σ α) α}
    (hw : w.Holds port s) (timer : Timer Alarm α) :
    w.Holds port { s with host := { s.host with clock := s.host.clock.fire timer } } where
  tended := hw.tended.withClock fun _ hmem _ haction => (hw.tended.of_mem_fire hmem haction).1
  loops left hmem haction := by
    rcases Clock.mem_fire hmem with ⟨hold, -⟩ | ⟨ran, hran, -, hagain⟩
    · exact hw.loops left hold haction
    · -- the loop goes on under its number
      obtain ⟨hnumber, hkept, -⟩ := Timer.of_again hagain
      rw [hnumber]
      exact hw.loops ran hran (hkept.symm.trans haction)
  noLoop := hw.noLoop
  quiet hquiet := (hw.quiet hquiet).withClock fun _ hmem _ haction =>
    (hw.tended.of_mem_fire hmem haction).1

namespace Stage.Kept

variable {port : Port} {s : Stage (Device σ α) α}

/-- **A timer that runs leaves the stage kept.** -/
theorem fire (h : s.Kept port) {timer : Timer Alarm α} (hmem : timer ∈ s.host.clock.timers) :
    (s.fire timer).Kept port := by
  obtain ⟨w, hw, hfits⟩ := h
  have hfired := hw.fire timer
  unfold Stage.fire
  dsimp only
  split
  · exact settle hfired (hfits.tick _)
  · next bytes haction =>
    -- a message waits, so the player is playing
    have hplaying : s.player.mode = .playing := by
      by_contra hrest
      exact (hw.quiet (hfits.quiet hrest)).noMessage timer hmem bytes haction
    refine ⟨{ w with quiet := false }, ⟨?_, fun left hleft hloop => ?_, hfired.noLoop, ?_⟩, ?_⟩
    · exact hfired.tended.deliver bytes fun _ hleft _ hmessage =>
        (hw.tended.of_mem_fire hleft hmessage).2
    · exact hfired.loops left (by rwa [← Device.clock_deliver]) hloop
    · intro hquiet
      cases hquiet
    · exact ⟨hfits.looping_iff, fun hrest => absurd hplaying hrest⟩

omit [Scalar α] [Hardware σ] in
/-- Without a timer, time changes nothing. -/
theorem withTime (h : s.Kept port) (now : α) :
    Kept port { s with host := { s.host with clock := { s.host.clock with now } } } := by
  obtain ⟨w, hw, hfits⟩ := h
  exact ⟨w, hw.withClock fun _ hmem => hmem, hfits⟩

theorem advance (h : s.Kept port) (milliseconds : α) : (s.advance milliseconds).Kept port := by
  refine withTime ?_ _
  exact Clock.runDue_induction (fun _ _ hkept hmem => hkept.fire hmem) _ _ h

/-- **Whatever happens, the stage is kept.** -/
theorem act (h : s.Kept port) (action : Action α) : (s.act action).Kept port := by
  have ⟨w, hw, hfits⟩ := h
  cases action with
  | play => exact settle hw (hfits.play _)
  | pause => exact settle hw (hfits.pause _)
  | stop => exact settle hw hfits.stop
  | seek seconds => exact settle hw (hfits.seek _ seconds)
  | load timeline changes => exact settle hw (hfits.load timeline changes)
  | dispose => exact settle hw hfits.dispose
  | setVolume track volume => exact settle hw (hfits.setSound track _)
  | setSound track change => exact settle hw (hfits.setSound track change)
  | jump milliseconds => exact h.withTime _
  | advance milliseconds => exact h.advance milliseconds

end Stage.Kept

/-! ## Every run -/

/-- What a stage can come to, on which a device is driven that was got ready and has its output
open: users act, and timers that were started run, in any order. -/
inductive Stage.Reachable : Stage (Device σ α) α → Prop where
  | start {h : Host (Device σ α) α} (lookahead period : α) (timeline : Timeline α)
      (changes : List (String × SoundChange α)) (listener : Listener) :
      Prepared h → h.synth.output.isSome →
        Reachable ⟨Player.ofTimeline lookahead period timeline changes, h, none, listener⟩
  | act {s : Stage (Device σ α) α} (action : Action α) : Reachable s → Reachable (s.act action)
  | fire {s : Stage (Device σ α) α} {timer : Timer Alarm α} :
      Reachable s → timer ∈ s.host.clock.timers → Reachable (s.fire timer)

theorem Stage.Reachable.kept {s : Stage (Device σ α) α} (hr : s.Reachable) :
    ∃ port, s.Kept port := by
  induction hr with
  | start lookahead period timeline changes listener hprepared hopen =>
    obtain ⟨port, hport⟩ := Option.isSome_iff_exists.mp hopen
    have hunplayed := hprepared.unplayed
    refine ⟨port, ⟨false, true⟩, ⟨hunplayed.tended hport, fun timer hmem => ?_, fun _ => rfl,
      fun _ => hunplayed.quiet⟩, by simp [Player.ofTimeline], fun _ => rfl⟩
    rw [hunplayed.timers] at hmem
    cases hmem
  | act action _ ih =>
    obtain ⟨port, hkept⟩ := ih
    exact ⟨port, hkept.act action⟩
  | fire _ hmem ih =>
    obtain ⟨port, hkept⟩ := ih
    exact ⟨port, hkept.fire hmem⟩

/-- No timer is left, and no note sounds. -/
structure Silent (h : Host (Device σ α) α) : Prop where
  timers : h.clock.timers = []
  pending : h.synth.pending = []
  hushed : Hushed h.calls

/-- **Whenever the player is not playing, there is silence**: no message and no round of the loop
waits, and wherever the start of a note was sent, its channel was silenced afterwards. -/
theorem silent_of_not_playing {s : Stage (Device σ α) α} (hr : s.Reachable)
    (hrest : s.player.mode ≠ .playing) : Silent s.host := by
  obtain ⟨port, w, hw, hfits⟩ := hr.kept
  have hquiet := hw.quiet (hfits.quiet hrest)
  have hnoLoop := hw.noLoop (hfits.not_looping hrest)
  -- a timer belongs to the loop or to a message, and there is neither
  refine ⟨List.eq_nil_iff_forall_not_mem.mpr fun timer hmem => ?_, hquiet.pending, hquiet.hushed⟩
  cases haction : timer.action with
  | loop => cases hnoLoop.symm.trans (hw.loops timer hmem haction)
  | message bytes => exact hquiet.noMessage timer hmem bytes haction

/-- An output that opens and takes every message. -/
def workingOutput : Device.Script where
  engines := []
  info := .object [("outputs", .array [.object []])]
  infoFault? := none
  ports := []
  sendFault? _ := none
  closeFault? := none

/-- A note that is held for a while. -/
def heldNote : Timeline Rat where
  events := [⟨.noteOn, 0, 0, 60, 100, "Lead"⟩, ⟨.noteOff, 1, 0, 60, 0, "Lead"⟩]
  channels := []
  tempo := 120
  durationSeconds := 2

/-- A player at the start of the song, and a device with its output open. -/
def beforeHeldNote : Stage (Device Device.Script Rat) Rat where
  player := Player.ofTimeline (1 / 10) 25 heldNote []
  host := (Device.request .start (Device.startingAt 0 workingOutput)).2
  loop := none
  listener := .absent

/-- The timer of the start of the note. -/
def heldNoteTimer : Timer Alarm Rat := ⟨1, 0, none, .message (Midi.noteOn 0 60 100)⟩

theorem silent_of_not_playing_heldNote :
    let playing := (beforeHeldNote.act .play).fire heldNoteTimer
    playing.player.mode = .playing ∧ .send ⟨0, 0⟩ (Midi.noteOn 0 60 100) ∈ playing.host.calls ∧
      Silent (playing.act .pause).host := by
  have hstart : beforeHeldNote.Reachable :=
    .start _ _ _ _ _ (Prepared.request (.made 0 workingOutput) .start) (by decide +kernel)
  have hsent : ((beforeHeldNote.act .play).fire heldNoteTimer).Reachable :=
    .fire (hstart.act .play) (by decide +kernel)
  exact ⟨by decide +kernel, by decide +kernel,
    silent_of_not_playing (hsent.act .pause) (by decide +kernel)⟩

end LeadSheet.Playback
