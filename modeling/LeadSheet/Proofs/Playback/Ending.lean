import LeadSheet.Proofs.Device.Prepared
import LeadSheet.Proofs.Playback.Replies
import LeadSheet.Proofs.Playback.Silence
import LeadSheet.Proofs.Playback.Underway
import LeadSheet.Proofs.Sheet.Saved
import LeadSheet.Proofs.Timeline.Onset

/-!
# What is sent before a song ends

A sheet is played from its start on a device, and then everything is left to the timers. The song
ends in the first round of the loop that finds its time over and nothing left to hand over. What is
due before that round was sent by then, in order and once each; what is not due yet is dropped
(`sent_before_end`). Nothing is lost that starts before the song is over, but a sheet may have notes
behind the last bar of its sections, and the last ones of these are (`lost_behind_end`).
-/

namespace LeadSheet.Playback

open Device (Hardware Prepared messageOf silence)

/-! ## The start of playing -/

namespace Stage

variable {σ : Type} [Hardware σ]

/-- Giving channels their sounds sends messages and does nothing else. -/
theorem foldl_setups {port : Port} : ∀ (setups : List (ChannelSetup Rat))
    {s : Stage (Device σ Rat) Rat}, s.host.synth.disposed = false →
      s.host.synth.output = some port →
      let ready := ((setups.map Order.setup).map .order).foldl perform s
      ready.host.clock = s.host.clock ∧
        (∃ hardware, ready.host.synth = { s.host.synth with hardware }) ∧
        ready.host.calls
          = s.host.calls ++ (setups.flatMap Device.setupMessages).map (.send port) ∧
        ready.listener = s.listener
  | [], s, _, _ => ⟨rfl, ⟨_, rfl⟩, (List.append_nil _).symm, rfl⟩
  | setup :: rest, s, halive, hport => by
    have hfirst : (s.perform (.order (.setup setup))).host
        = Device.sendAll (Device.setupMessages setup) s.host := by
      change Device.setup setup s.host = _
      unfold Device.setup
      rw [if_neg (by simp [halive])]
    obtain ⟨hardware, hsynth⟩ := Device.synth_sendAll s.host (Device.setupMessages setup)
    rw [← hfirst] at hsynth
    obtain ⟨hclock, ⟨hardware', hsynth'⟩, hcalls, hlistener⟩ :=
      foldl_setups rest (s := s.perform (.order (.setup setup))) (by rw [hsynth, halive])
        (by rw [hsynth, hport])
    refine ⟨hclock.trans ?_, ⟨hardware', hsynth'.trans ?_⟩, hcalls.trans ?_, hlistener⟩
    · rw [hfirst, Device.clock_sendAll]
    · rw [hsynth]
    · rw [hfirst, Device.calls_sendAll _ hport, List.flatMap_cons, List.map_append,
        List.append_assoc]

end Stage

/-- The calls of a song that is played from its start and ends at a time. -/
def playedUntil (port : Port) (p : Player Rat) (last : Rat) : List (Call Rat) :=
  (p.channelSetups.flatMap Device.setupMessages).map (.send port)
    ++ (p.timeline.events.filter fun e => e.seconds < last).map (fun e => .send port (messageOf e))
    ++ silence.map (.send port) ++ [.ended]

/-! ## A recital that starts -/

/-- The cursor of a song that does not start before its start. -/
theorem cursorAt_zero {events : List (TimedEvent Rat)} (hnonneg : ∀ e ∈ events, 0 ≤ e.seconds) :
    Player.cursorAt events 0 = 0 := by
  have hcut : Sorting.Cut (fun e : TimedEvent Rat => decide (e.seconds < 0)) events 0 := by
    refine ⟨Nat.zero_le _, fun {i e} he => ?_⟩
    have := hnonneg e (List.mem_of_getElem? he)
    simp [this]
  exact Sorting.partitionPoint_eq hcut

variable {σ : Type}

/-- The recital that starts when a player plays from the start. -/
def Recital.ofHost (h : Host (Device σ Rat) Rat) (port : Port) (p : Player Rat)
    (hperiod : 0 < p.period) (hlookahead : p.period ≤ 1000 * p.lookahead)
    (hrising : p.timeline.events.Pairwise (·.seconds ≤ ·.seconds))
    (hnonneg : ∀ e ∈ p.timeline.events, 0 ≤ e.seconds) : Recital where
  player := { p.startAt (Device.time h) 0 with mode := .playing }
  port
  made := h.synth.startTime
  start := h.clock.now
  loop := h.clock.started
  calls := h.calls ++ (p.channelSetups.flatMap Device.setupMessages).map (.send port)
  mode_eq := rfl
  position_eq := rfl
  time_eq := Device.time_rat h
  period_pos := hperiod
  period_le := hlookahead
  rising := hrising
  nonneg := hnonneg

section

variable {h : Host (Device σ Rat) Rat} {port : Port} {p : Player Rat} (hperiod : 0 < p.period)
  (hlookahead : p.period ≤ 1000 * p.lookahead)
  (hrising : p.timeline.events.Pairwise (·.seconds ≤ ·.seconds))
  (hnonneg : ∀ e ∈ p.timeline.events, 0 ≤ e.seconds)

/-- Playing from the start is a round of the loop behind the start of the recital. -/
theorem play_eq_tick (hmode : p.mode = .stopped) (hheld : p.heldPosition = 0) :
    p.play (Device.time h)
      = Reply.after (p.setups ++ [.startLoop p.period])
          (((Recital.ofHost h port p hperiod hlookahead hrising hnonneg).playerAt 0).tick
            (Device.time h)) := by
  have hstart : { p.startAt (Device.time h) p.heldPosition with mode := .playing }
      = (Recital.ofHost h port p hperiod hlookahead hrising hnonneg).playerAt 0 := by
    unfold Recital.playerAt Recital.ofHost Player.startAt
    rw [hheld, cursorAt_zero hnonneg]
  unfold Player.play
  rw [if_neg (by simp [hmode]), if_pos hmode]
  dsimp only
  rw [hstart]

/-- Under way, nothing but messages was sent. -/
theorem Recital.Underway.calls_eq {sent queue todo : List (TimedEvent Rat)} {round : Nat}
    {s : Stage (Device σ Rat) Rat}
    (hunder : (ofHost h port p hperiod hlookahead hrising hnonneg).Underway sent queue todo round
      s) : ∃ messages : List (List UInt8), s.host.calls = h.calls ++ messages.map (.send port) := by
  refine ⟨p.channelSetups.flatMap Device.setupMessages ++ sent.map messageOf, ?_⟩
  rw [hunder.attends.calls, List.map_append, List.map_map, ← List.append_assoc]
  rfl

theorem Recital.Ended.calls_eq {round : Nat} {s : Stage (Device σ Rat) Rat}
    (hended : (ofHost h port p hperiod hlookahead hrising hnonneg).Ended round s) :
    s.host.calls = h.calls ++ playedUntil port p (round * p.period / 1000) := by
  rw [hended.calls]
  unfold playedUntil
  simp only [← List.append_assoc]
  rfl

variable [Hardware σ]

/-- The channels have their sounds and the loop was started: nothing of the song was sent, and
nothing waits. -/
theorem attends_startLoop (hprepared : Prepared h) (hport : h.synth.output = some port)
    (listener : Listener) :
    let ready := p.setups.foldl Stage.perform ⟨p, h, none, listener⟩
    (Recital.ofHost h port p hperiod hlookahead hrising hnonneg).Attends [] [] 0
        (ready.startLoop p.period).host ∧
      ready.host.clock = h.clock ∧ ready.listener = listener := by
  intro ready
  let g := Recital.ofHost h port p hperiod hlookahead hrising hnonneg
  have hunplayed := hprepared.unplayed
  obtain ⟨hclock, ⟨hardware, hsynth⟩, hcalls, hsame⟩ :=
    Stage.foldl_setups (s := ⟨p, h, none, listener⟩) p.channelSetups hunplayed.alive hport
  rw [← Player.setups_eq] at hclock hsynth hcalls hsame
  have hdue : h.clock.now + p.period = g.start + 1000 * g.elapsed (0 + 1) := by
    rw [g.elapsed_succ, g.elapsed_zero]
    change h.clock.now + p.period = h.clock.now + 1000 * (0 + p.period / 1000)
    ring
  refine ⟨⟨?_, ?_, ?_, ?_, ?_, ?_, ?_⟩, hclock, hsame⟩
  · change ready.host.clock.timers
      ++ [⟨ready.host.clock.started, ready.host.clock.now + p.period, some p.period, .loop⟩] = _
    rw [hclock, hunplayed.timers, hdue]
    rfl
  · exact congrArg (·.started + 1) hclock
  · exact (congrArg (·.pending) hsynth).trans hunplayed.pending
  · exact (congrArg (·.output) hsynth).trans hport
  · exact (congrArg (·.disposed) hsynth).trans hunplayed.alive
  · exact congrArg (·.startTime) hsynth
  · exact hcalls.trans (List.append_nil _).symm

/-- **A song that is played from its start takes its course.** -/
theorem stands_play (hprepared : Prepared h) (hport : h.synth.output = some port)
    (hmode : p.mode = .stopped) (hheld : p.heldPosition = 0) {listener : Listener}
    (hlistener : listener.TakesNote) :
    (Recital.ofHost h port p hperiod hlookahead hrising hnonneg).Stands
      (Stage.act ⟨p, h, none, listener⟩ .play) := by
  obtain ⟨ha, hclock, hsame⟩ :=
    attends_startLoop hperiod hlookahead hrising hnonneg hprepared hport listener
  let g := Recital.ofHost h port p hperiod hlookahead hrising hnonneg
  generalize hready : p.setups.foldl Stage.perform ⟨p, h, none, listener⟩ = ready at *
  have hact : Stage.act ⟨p, h, none, listener⟩ .play
      = (ready.startLoop p.period).settle ((g.playerAt 0).tick (Device.time h)) := by
    change Stage.settle ⟨p, h, none, listener⟩ (p.play (Device.time h)) = _
    rw [play_eq_tick hperiod hlookahead hrising hnonneg hmode hheld, Stage.settle_after,
      List.foldl_append, hready]
    rfl
  have htime : Device.time h = g.time 0 := by
    rw [Recital.time, g.elapsed_zero, add_zero]
    rfl
  have hnow : ready.host.clock.now = g.start + 1000 * g.elapsed 0 := by
    rw [g.elapsed_zero, mul_zero, add_zero, hclock]
    rfl
  have hloop : some ready.host.clock.started = some g.loop := by
    rw [hclock]
    rfl
  have hnote : ready.listener.TakesNote := hsame ▸ hlistener
  have hsoon : ∀ e ∈ g.events, g.elapsed 0 ≤ e.seconds := fun e he => by
    rw [g.elapsed_zero]
    exact hnonneg e he
  have hround := ha.settle_tick hnow hloop hnote (List.nil_append g.events).symm (by simp)
    (by simp) hsoon (by simp)
  rw [hact, htime]
  rcases hround with hended | ⟨near, rest, -, hunder⟩
  · exact .inr ⟨0, hended⟩
  · exact .inl ⟨_, _, _, _, hunder⟩

end

/-- **What is sent before a song ends.** A sheet is played from its start on a device that was got
ready and has its port open; the loop comes round no less often than it looks ahead, and nothing
else happens than that timers run when they are due. The song comes to its end, in the first round
at which its time is over and everything was handed over, and the listener is told. By then the
channels got their sounds, everything that is due before that round was sent, in order and once
each, and nothing else; then the channels were silenced. So all is sent that sounds before the time
of the song is over. -/
theorem sent_before_end {σ : Type} [Hardware σ] {v : Vocabulary Rat}
    (hdurations : ∀ entry ∈ v.durations, 0 ≤ entry.2) (w : Vocabulary Rat) {text : String}
    {score : Score Rat} (hread : (Sheet.read v text).outcome = .ok score)
    {h : Host (Device σ Rat) Rat} (hprepared : Prepared h) {port : Port}
    (hport : h.synth.output = some port) {lookahead period : Rat} (hperiod : 0 < period)
    (hlookahead : period ≤ 1000 * lookahead) (changes : List (String × SoundChange Rat))
    {listener : Listener} (hlistener : listener.TakesNote) :
    let timeline := Timeline.ofScore w score
    let player := Player.ofTimeline lookahead period timeline changes
    let start : Stage (Device σ Rat) Rat := ⟨player, h, none, listener⟩
    let finished (time : Rat) : Prop :=
      timeline.durationSeconds ≤ time ∧ ∀ e ∈ timeline.events, e.seconds ≤ time + lookahead
    ∃ round : Nat, finished (round * period / 1000) ∧
      (∀ earlier < round, ¬finished (earlier * period / 1000)) ∧
      let told := playedUntil port player (round * period / 1000)
      (∃ s, (start.act .play).Unfolds s ∧ s.host.calls = h.calls ++ told) ∧
      (∀ s, (start.act .play).Unfolds s → ∃ more, s.host.calls = h.calls ++ more ∧
        (.ended ∈ more → more = told)) ∧
      ∀ e ∈ timeline.events, e.seconds < timeline.durationSeconds →
        .send port (messageOf e) ∈ told := by
  intro timeline player start finished
  have hrising : timeline.events.Pairwise (·.seconds ≤ ·.seconds) :=
    (Timeline.ofScore_stable w score).rising
  have hnonneg : ∀ e ∈ timeline.events, 0 ≤ e.seconds := fun e he =>
    Timeline.seconds_nonneg_of_read hdurations w hread he
  have hstands := stands_play (p := player) hperiod hlookahead hrising hnonneg hprepared hport rfl
    ((Scalar.ofNat_rat 0).trans Nat.cast_zero) hlistener
  obtain ⟨round, s, hunfolds, hended⟩ := hstands.exists_ended
  -- whatever the stage comes to, it is on the way to this end or at it
  refine ⟨round, hended.finished, hended.first, ⟨s, hunfolds, hended.calls_eq ..⟩,
    fun s' hunfolds' => ?_, fun e he hbefore => ?_⟩
  · rcases hstands.unfolds hunfolds' with ⟨sent, queue, todo, current, hunder⟩ | ⟨last, hended'⟩
    · obtain ⟨messages, hcalls⟩ := hunder.calls_eq ..
      refine ⟨_, hcalls, fun hmem => ?_⟩
      obtain ⟨message, -, hsend⟩ := List.mem_map.mp hmem
      cases hsend
    · obtain rfl := hended.round_unique hended'
      exact ⟨_, hended'.calls_eq .., fun _ => rfl⟩
  · have hsent : e ∈ timeline.events.filter fun e => e.seconds < round * period / 1000 :=
      List.mem_filter.mpr ⟨he, decide_eq_true (hbefore.trans_le hended.finished.1)⟩
    refine List.mem_append_left _ (List.mem_append_left _ (List.mem_append_right _ ?_))
    exact List.mem_map_of_mem (f := fun e => Call.send port (messageOf e)) hsent

/-- A device with its output open, and a player that starts. -/
def atWorkingOutput (timeline : Timeline Rat) : Stage (Device Device.Script Rat) Rat where
  player := Player.ofTimeline (1 / 10) 25 timeline []
  host := (Device.request .start (Device.startingAt 0 workingOutput)).2
  loop := none
  listener := .silent

/-- A bar of 0.6 seconds, and three short notes behind it. -/
def shortBar : List Char :=
  "TEMPO: 400\nSECTION: A [1 bars]\nPIANO: C4(w) | D4(s) E4(s) F4(s)\n".toList

/-- The note of the bar was sent when the listener was told. -/
theorem sent_before_end_shortBar :
    ∃ score, (Sheet.read (Vocabulary.standard : Vocabulary Rat) (String.ofList shortBar)).outcome
        = .ok score ∧
      ∃ s, ((atWorkingOutput (Timeline.ofScore Vocabulary.standard score)).act .play).Unfolds s ∧
        .ended ∈ s.host.calls ∧ .send ⟨0, 0⟩ (Midi.noteOn 0 60 88) ∈ s.host.calls := by
  have hread : (Sheet.readCleaned (Vocabulary.standard : Vocabulary Rat)
      (Sheet.clean (Sheet.repair shortBar))).outcome.toOption.any (fun score =>
        (Timeline.ofScore Vocabulary.standard score).events.any fun e =>
          e.seconds < (Timeline.ofScore Vocabulary.standard score).durationSeconds
            && messageOf e == Midi.noteOn 0 60 88) = true := by
    decide +kernel
  obtain ⟨score, hscore, hnote⟩ := Sheet.exists_of_outcome hread
  have hscore := (Sheet.outcome_read_ofList _ (by decide +kernel)).trans hscore
  obtain ⟨e, he, hbefore⟩ := List.any_eq_true.mp hnote
  have hport : (Device.request .start (Device.startingAt (0 : Rat) workingOutput)).2.synth.output
      = some ⟨0, 0⟩ := by
    decide +kernel
  have hlistener : Listener.silent.TakesNote := trivial
  simp only [Bool.and_eq_true, decide_eq_true_eq, beq_iff_eq] at hbefore
  obtain ⟨round, -, -, ⟨s, hunfolds, hcalls⟩, -, hall⟩ :=
    sent_before_end (by decide +kernel) Vocabulary.standard hscore
      (Prepared.request (.made 0 workingOutput) .start) hport (by decide +kernel : (0 : Rat) < 25)
      (by decide +kernel : (25 : Rat) ≤ 1000 * (1 / 10)) [] hlistener
  refine ⟨score, hscore, s, hunfolds, ?_, ?_⟩
  · rw [hcalls]
    exact List.mem_append_right _ (List.mem_append_right _ (List.mem_singleton_self _))
  · rw [hcalls, ← hbefore.2]
    exact List.mem_append_right _ (hall e he hbefore.1)

/-- **What sounds behind the end may be lost.** When the listener was told, the second of the notes
behind the bar was never sent. -/
theorem lost_behind_end :
    ∃ score, (Sheet.read (Vocabulary.standard : Vocabulary Rat) (String.ofList shortBar)).outcome
        = .ok score ∧
      let timeline := Timeline.ofScore Vocabulary.standard score
      let played := ((atWorkingOutput timeline).act .play).act (.advance 2000)
      .ended ∈ played.host.calls ∧ ∃ e ∈ timeline.events, e.kind = .noteOn ∧
        .send ⟨0, 0⟩ (messageOf e) ∉ played.host.calls := by
  have hread : (Sheet.readCleaned (Vocabulary.standard : Vocabulary Rat)
      (Sheet.clean (Sheet.repair shortBar))).outcome.toOption.any (fun score =>
        let timeline := Timeline.ofScore Vocabulary.standard score
        let played := ((atWorkingOutput timeline).act .play).act (.advance 2000)
        decide (.ended ∈ played.host.calls ∧ ∃ e ∈ timeline.events, e.kind = .noteOn ∧
          .send ⟨0, 0⟩ (messageOf e) ∉ played.host.calls)) = true := by
    decide +kernel
  obtain ⟨score, hscore, hlost⟩ := Sheet.exists_of_outcome hread
  exact ⟨score, (Sheet.outcome_read_ofList _ (by decide +kernel)).trans hscore,
    of_decide_eq_true hlost⟩

end LeadSheet.Playback
