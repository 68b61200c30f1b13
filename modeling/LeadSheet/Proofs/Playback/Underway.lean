import LeadSheet.Proofs.Device.Quiet
import LeadSheet.Proofs.Playback.Due
import LeadSheet.Proofs.Playback.Recital

/-!
# The course of a song

What a song that is played from its start comes to on its device. Each event waits in a timer that
is due when the event is to sound. So at any time the events are in three parts
(`Recital.Underway`): those that were sent, those that wait, and those that the loop has not come
upon. A timer that runs sends the first one that waits, or lets more of them wait, or ends the
recital; and then what still waits is dropped (`Recital.Underway.fire`).
-/

namespace LeadSheet

theorem Device.time_rat {σ : Type} (h : Playback.Host (Device σ Rat) Rat) :
    Device.time h = (h.clock.now - h.synth.startTime) / 1000 := by
  unfold Device.time
  rw [Scalar.numeral_rat]
  push_cast
  rfl

namespace Playback

open Device (Hardware messageOf silence)

namespace Recital

variable (g : Recital)

/-! ## The device -/

/-- The first number of a range is taken out of it. -/
theorem filter_range'_ne (first count : Nat) :
    (List.range' first (count + 1)).filter (· ≠ first) = List.range' (first + 1) count := by
  rw [List.range'_succ, List.filter_cons_of_neg (by simp), List.filter_eq_self]
  intro number hmem
  have := (List.mem_range'_1.mp hmem).1
  simp only [decide_eq_true_eq]
  omega

variable {σ : Type}

/-- The state of the device before a round: events were sent, others wait, and so does the loop. -/
structure Attends (sent queue : List (TimedEvent Rat)) (round : Nat)
    (h : Host (Device σ Rat) Rat) : Prop where
  timers : h.clock.timers
    = g.loopTimer (round + 1) :: g.messageTimers (g.loop + 1 + sent.length) queue
  started : h.clock.started = g.loop + 1 + sent.length + queue.length
  pending : h.synth.pending = List.range' (g.loop + 1 + sent.length) queue.length
  output : h.synth.output = some g.port
  alive : h.synth.disposed = false
  made : h.synth.startTime = g.made
  calls : h.calls = g.calls ++ sent.map g.sending

namespace Attends

variable {g} {sent queue : List (TimedEvent Rat)} {round : Nat} {h : Host (Device σ Rat) Rat}

theorem time_eq (ha : g.Attends sent queue round h)
    (hnow : h.clock.now = g.start + 1000 * g.elapsed round) :
    Device.time h = g.time round := by
  rw [Device.time_rat, hnow, ha.made, time, g.time_eq]
  ring

/-- An event that is handed over in time waits for its time. -/
theorem schedule (ha : g.Attends sent queue round h)
    (hnow : h.clock.now = g.start + 1000 * g.elapsed round) {e : TimedEvent Rat}
    (hsoon : g.elapsed round ≤ e.seconds) :
    g.Attends sent (queue ++ [e]) round
        (Device.schedule e (g.player.startTime + e.seconds) h) ∧
      (Device.schedule e (g.player.startTime + e.seconds) h).clock.now = h.clock.now := by
  have hopen : ¬(h.synth.disposed || h.synth.output.isNone) = true := by
    rw [ha.alive, ha.output]
    nofun
  have hdue : h.clock.now + max 0 ((g.player.startTime + e.seconds - Device.time h) * 1000)
      = g.start + 1000 * e.seconds := by
    rw [ha.time_eq hnow, hnow, time, max_eq_right]
    · ring
    · linarith
  unfold Device.schedule
  rw [if_neg hopen, Scalar.max_rat, Scalar.numeral_rat, Scalar.numeral_rat]
  push_cast
  refine ⟨⟨?_, ?_, ?_, ha.output, ha.alive, ha.made, ha.calls⟩, rfl⟩
  · dsimp only [Device.update, Clock.startOnce, Clock.start]
    rw [ha.timers, ha.started, hdue, messageTimers_concat]
    rfl
  · dsimp only [Device.update, Clock.startOnce, Clock.start]
    rw [ha.started, List.length_append]
    rfl
  · dsimp only [Device.update]
    rw [ha.pending, ha.started, List.length_append, List.length_singleton, List.range'_1_concat]

/-- Events that are handed over in time wait, one behind the other. -/
theorem handAll [Hardware σ] (near : List (TimedEvent Rat)) {s : Stage (Device σ Rat) Rat}
    (ha : g.Attends sent queue round s.host)
    (hnow : s.host.clock.now = g.start + 1000 * g.elapsed round)
    (hsoon : ∀ e ∈ near, g.elapsed round ≤ e.seconds) :
    let handed := (near.map g.handing).foldl Stage.perform s
    g.Attends sent (queue ++ near) round handed.host ∧
      handed.host.clock.now = s.host.clock.now ∧ handed.loop = s.loop ∧
      handed.listener = s.listener := by
  induction near generalizing queue s with
  | nil =>
    rw [List.append_nil]
    exact ⟨ha, rfl, rfl, rfl⟩
  | cons e rest ih =>
    obtain ⟨hfirst, hrest⟩ := List.forall_mem_cons.mp hsoon
    obtain ⟨hwaits, htime⟩ := ha.schedule hnow hfirst
    have hothers := ih (s := s.perform (g.handing e)) hwaits (htime.trans hnow) hrest
    rw [List.append_assoc] at hothers
    exact ⟨hothers.1, hothers.2.1.trans htime, hothers.2.2⟩

/-- The timer of the loop runs and is due again. -/
theorem fireLoop (ha : g.Attends sent queue round h) :
    g.Attends sent queue (round + 1)
      { h with clock := h.clock.fire (g.loopTimer (round + 1)) } where
  timers := by
    have hothers : ∀ timer ∈ g.messageTimers (g.loop + 1 + sent.length) queue,
        timer.number ≠ g.loop := fun timer hmem => by
      have := le_number_of_mem_messageTimers hmem
      omega
    have hagain : (g.loopTimer (round + 1)).again = some (g.loopTimer (round + 2)) := by
      unfold loopTimer Timer.again
      rw [Option.map_some, g.elapsed_succ (round + 1)]
      congr 2
      ring
    have htimers : h.clock.timers = [] ++ g.loopTimer (round + 1)
        :: g.messageTimers (g.loop + 1 + sent.length) queue := ha.timers
    rw [Clock.timers_fire htimers (by simp) hothers, hagain]
    rfl
  started := ha.started
  pending := ha.pending
  output := ha.output
  alive := ha.alive
  made := ha.made
  calls := ha.calls

variable [Hardware σ]

/-- The timer of the first event that waits runs, and the event is sent. -/
theorem deliver {e : TimedEvent Rat} {rest : List (TimedEvent Rat)}
    (ha : g.Attends sent (e :: rest) round h) :
    let timer := g.messageTimer (e, g.loop + 1 + sent.length)
    let behind := Device.deliver timer.number (messageOf e)
      { h with clock := h.clock.fire timer }
    g.Attends (sent ++ [e]) rest round behind ∧ behind.clock = h.clock.fire timer := by
  intro timer behind
  have hnumber : g.loop + 1 + (sent ++ [e]).length = timer.number + 1 := by
    rw [List.length_append]
    rfl
  -- the device takes the number off its list, and sends the message
  let taken := Device.update { h with clock := h.clock.fire timer } fun d =>
    { d with pending := d.pending.filter (· ≠ timer.number) }
  have hbehind : behind = Device.send (messageOf e) taken :=
    if_neg (by simp [Device.update, ha.alive])
  obtain ⟨hardware, hsynth⟩ := Device.synth_send taken (messageOf e)
  rw [← hbehind] at hsynth
  have hclock : behind.clock = h.clock.fire timer := by
    rw [hbehind, Device.clock_send]
    rfl
  refine ⟨⟨?_, ?_, ?_, (congrArg (·.output) hsynth).trans ha.output,
    (congrArg (·.disposed) hsynth).trans ha.alive,
    (congrArg (·.startTime) hsynth).trans ha.made, ?_⟩, hclock⟩
  · have hloop : ∀ other ∈ [g.loopTimer (round + 1)], other.number ≠ timer.number := by
      intro other hmem
      obtain rfl := List.mem_singleton.mp hmem
      change g.loop ≠ g.loop + 1 + sent.length
      omega
    have hothers : ∀ other ∈ g.messageTimers (timer.number + 1) rest,
        other.number ≠ timer.number := fun other hmem => by
      have := le_number_of_mem_messageTimers hmem
      omega
    rw [hclock, Clock.timers_fire (ha.timers.trans rfl) hloop hothers, hnumber]
    rfl
  · rw [hclock, hnumber, Nat.add_assoc, Nat.add_comm 1]
    exact ha.started
  · rw [hsynth, hnumber]
    change h.synth.pending.filter (· ≠ timer.number) = _
    rw [ha.pending]
    exact filter_range'_ne timer.number rest.length
  · rw [hbehind, Device.calls_send _ (by exact ha.output), List.map_append, ← List.append_assoc]
    exact congrArg (· ++ [g.sending e]) ha.calls

/-- The end of the recital: the loop is stopped, what waits is dropped, and the device falls
silent. -/
theorem finish {s : Stage (Device σ Rat) Rat} (ha : g.Attends sent queue round s.host)
    (hloop : s.loop = some g.loop) :
    let finished := [Command.stopLoop, .order .cancelAll].foldl Stage.perform s
    finished.host.clock.timers = [] ∧
      finished.host.calls = g.calls ++ sent.map g.sending ++ silence.map (.send g.port) ∧
      finished.listener = s.listener := by
  intro finished
  have hstop : s.stopLoop
      = { s with host := { s.host with clock := s.host.clock.cancel g.loop }, loop := none } := by
    unfold Stage.stopLoop
    rw [hloop]
  have hfinished : finished = { s with
      host := Device.cancelAll { s.host with clock := s.host.clock.cancel g.loop }
      loop := none } := by
    change Stage.perform s.stopLoop (.order .cancelAll) = _
    rw [hstop]
    rfl
  rw [hfinished]
  dsimp only
  rw [Device.cancelAll_of_alive (by exact ha.alive), Device.clock_sendAll]
  refine ⟨List.eq_nil_iff_forall_not_mem.mpr fun timer hmem => ?_, ?_, rfl⟩
  · -- a timer is the loop's, which was stopped, or a message's, which was dropped
    obtain ⟨hkept, hwaits⟩ := Clock.mem_foldl_cancel.mp hmem
    obtain ⟨hold, hnumber⟩ := Clock.mem_cancel.mp hkept
    rw [ha.timers] at hold
    rcases List.mem_cons.mp hold with rfl | hmessage
    · exact hnumber rfl
    · refine hwaits ?_
      change timer.number ∈ s.host.synth.pending
      rw [ha.pending]
      exact (of_mem_messageTimers hmessage).1
  · rw [Device.calls_sendAll silence (by exact ha.output)]
    exact congrArg (· ++ silence.map (.send g.port)) ha.calls

end Attends

end Recital

/-! ## The listener -/

/-- The listener takes note of the end of the song, and does not play again. -/
def Listener.TakesNote : Listener → Prop
  | .silent | .failing _ => True
  | .absent | .replaying _ => False

theorem Stage.notify_of_takesNote {ω : Type} [Synth ω Rat] {s : Stage ω Rat}
    (h : s.listener.TakesNote) :
    s.notify.host.clock = s.host.clock ∧ s.notify.host.calls = s.host.calls ++ [.ended] := by
  unfold notify
  cases hlistener : s.listener with
  | silent => exact ⟨rfl, rfl⟩
  | failing fault => exact ⟨rfl, rfl⟩
  | absent | replaying times =>
    rw [hlistener] at h
    exact h.elim

/-! ## The course of a recital -/

namespace Recital

variable (g : Recital) {σ : Type}

/-- Behind a round and before the next one: events were sent, others wait, and the round did not
look upon the rest. -/
structure Underway (sent queue todo : List (TimedEvent Rat)) (round : Nat)
    (s : Stage (Device σ Rat) Rat) : Prop where
  attends : g.Attends sent queue round s.host
  loop_eq : s.loop = some g.loop
  listener : s.listener.TakesNote
  player_eq : s.player = g.playerAt (sent ++ queue).length
  split : g.events = sent ++ queue ++ todo
  reached : ∀ e ∈ sent ++ queue, e.seconds ≤ g.horizon round
  ahead : ∀ e ∈ todo, g.horizon round < e.seconds
  early : ∀ e ∈ sent, e.seconds < g.elapsed (round + 1)
  on_time : ∀ timer ∈ s.host.clock.timers, s.host.clock.now ≤ timer.due
  not_over : ∀ earlier ≤ round, ¬g.Over earlier

/-- Behind the round that finds the song over, the first one that does. What was sent is what was
due before that round. -/
structure Ended (round : Nat) (s : Stage (Device σ Rat) Rat) : Prop where
  finished : g.Over round
  first : ∀ earlier < round, ¬g.Over earlier
  timers : s.host.clock.timers = []
  calls : s.host.calls = g.calls
    ++ (g.events.filter fun e => e.seconds < g.elapsed round).map g.sending
    ++ silence.map (.send g.port) ++ [.ended]

variable {g} [Hardware σ] {sent queue todo : List (TimedEvent Rat)} {round : Nat}
  {s : Stage (Device σ Rat) Rat}

/-- In order of time, the events a round does not come upon lie beyond its horizon. -/
theorem horizon_lt_of_mem_dropWhile (h : todo.Pairwise (·.seconds ≤ ·.seconds))
    {e : TimedEvent Rat} (he : e ∈ todo.dropWhile (g.reaches round)) :
    g.horizon round < e.seconds := by
  have hcut : Sorting.Cut (g.reaches round) todo (todo.takeWhile (g.reaches round)).length :=
    Sorting.cut_takeWhile (h.imp fun hle hreaches =>
      decide_eq_true (hle.trans (of_decide_eq_true hreaches)))
  rw [← Sorting.drop_length_takeWhile] at he
  exact not_le.mp fun hle => hcut.of_mem_drop he (decide_eq_true hle)

/-- The end, once everything was handed over. -/
theorem Attends.ended (ha : g.Attends sent queue round s.host) (hloop : s.loop = some g.loop)
    (hlistener : s.listener.TakesNote) (hsplit : g.events = sent ++ todo)
    (hearly : ∀ e ∈ sent, e.seconds < g.elapsed round)
    (hlate : ∀ e ∈ todo, g.elapsed round ≤ e.seconds) (hover : g.Over round)
    (hfirst : ∀ earlier < round, ¬g.Over earlier) (player : Player Rat) :
    g.Ended round (Stage.notify
      { [Command.stopLoop, .order .cancelAll].foldl Stage.perform s with player }) := by
  obtain ⟨htimers, hcalls, hsame⟩ := ha.finish hloop
  have htold := Stage.notify_of_takesNote
    (s := { [Command.stopLoop, .order .cancelAll].foldl Stage.perform s with player })
    (by rwa [← hsame] at hlistener)
  have hsent : g.events.filter (fun e => decide (e.seconds < g.elapsed round)) = sent := by
    rw [hsplit, List.filter_append, List.filter_eq_self.mpr (by simpa using hearly),
      List.filter_eq_nil_iff.mpr (by simpa using hlate), List.append_nil]
  refine ⟨hover, hfirst, (congrArg Clock.timers htold.1).trans htimers, ?_⟩
  rw [htold.2, hsent]
  exact congrArg (· ++ [.ended]) hcalls

omit [Hardware σ] in
/-- Behind a round that does not find the song over. -/
theorem Attends.underway (ha : g.Attends sent queue round s.host)
    (hnow : s.host.clock.now = g.start + 1000 * g.elapsed round) (hloop : s.loop = some g.loop)
    (hlistener : s.listener.TakesNote) (hsplit : g.events = sent ++ queue ++ todo)
    (hreached : ∀ e ∈ sent ++ queue, e.seconds ≤ g.horizon round)
    (hahead : ∀ e ∈ todo, g.horizon round < e.seconds)
    (hearly : ∀ e ∈ sent, e.seconds < g.elapsed round)
    (hlate : ∀ e ∈ queue, g.elapsed round ≤ e.seconds)
    (hfirst : ∀ earlier < round, ¬g.Over earlier) (hover : ¬g.Over round) :
    g.Underway sent queue todo round
      { s with player := g.playerAt (sent ++ queue).length } where
  attends := ha
  loop_eq := hloop
  listener := hlistener
  player_eq := rfl
  split := hsplit
  reached := hreached
  ahead := hahead
  early e he := (hearly e he).trans (g.elapsed_lt_succ round)
  on_time timer hmem := by
    have hlater := g.elapsed_lt_succ round
    rw [hnow]
    rw [ha.timers] at hmem
    rcases List.mem_cons.mp hmem with rfl | hmem
    · change _ ≤ g.start + 1000 * g.elapsed (round + 1)
      linarith
    · obtain ⟨-, e, he, hdue⟩ := of_mem_messageTimers hmem
      have := hlate e he
      rw [hdue]
      linarith
  not_over earlier hle := by
    rcases hle.lt_or_eq with hlt | rfl
    · exact hfirst earlier hlt
    · exact hover

/-- **A round lets more events wait, or ends the recital.** -/
theorem Attends.settle_tick (ha : g.Attends sent queue round s.host)
    (hnow : s.host.clock.now = g.start + 1000 * g.elapsed round) (hloop : s.loop = some g.loop)
    (hlistener : s.listener.TakesNote) (hsplit : g.events = sent ++ queue ++ todo)
    (hreached : ∀ e ∈ sent ++ queue, e.seconds ≤ g.horizon round)
    (hearly : ∀ e ∈ sent, e.seconds < g.elapsed round)
    (hsoon : ∀ e ∈ queue ++ todo, g.elapsed round ≤ e.seconds)
    (hfirst : ∀ earlier < round, ¬g.Over earlier) :
    let reply := (g.playerAt (sent ++ queue).length).tick (g.time round)
    g.Ended round (s.settle reply) ∨
      ∃ near rest, todo = near ++ rest ∧
        g.Underway sent (queue ++ near) rest round (s.settle reply) := by
  intro reply
  obtain ⟨hqueue, htodo⟩ := List.forall_mem_append.mp hsoon
  have hcut := List.takeWhile_append_dropWhile (p := g.reaches round) (l := todo)
  have hnear : ∀ e ∈ todo.takeWhile (g.reaches round), g.elapsed round ≤ e.seconds := fun e he =>
    htodo e ((List.takeWhile_sublist _).subset he)
  obtain ⟨hwaits, hstill, hsameLoop, hsame⟩ := ha.handAll _ hnow hnear
  rw [← hsame] at hlistener
  rw [show reply = _ from tick_playerAt hsplit hreached htodo]
  by_cases hover : g.Over round
  · rw [if_pos hover]
    unfold Stage.settle Stage.carryOut
    rw [if_pos rfl, List.foldl_append]
    rw [List.append_assoc] at hsplit
    exact .inl (hwaits.ended (hsameLoop.trans hloop) hlistener hsplit hearly hsoon hover hfirst _)
  · -- the song goes on, and what the round did not come upon lies beyond its horizon
    have hrising : todo.Pairwise (·.seconds ≤ ·.seconds) := by
      have hall : g.events.Pairwise (·.seconds ≤ ·.seconds) := g.rising
      rw [hsplit] at hall
      exact (List.pairwise_append.mp hall).2.1
    rw [if_neg hover, List.append_assoc]
    refine .inr ⟨_, _, hcut.symm, hwaits.underway (hstill.trans hnow) (hsameLoop.trans hloop)
      hlistener ?_ ?_ (fun e he => horizon_lt_of_mem_dropWhile hrising he) hearly
      (List.forall_mem_append.mpr ⟨hqueue, hnear⟩) hfirst hover⟩
    · rw [List.append_assoc, List.append_assoc, hcut, ← List.append_assoc, hsplit]
    · rw [← List.append_assoc]
      exact List.forall_mem_append.mpr ⟨hreached, fun e he =>
        of_decide_eq_true (List.mem_takeWhile_imp (p := g.reaches round) he)⟩

/-! ## Timers that run -/

namespace Underway

omit [Hardware σ] in
theorem queue_sorted (h : g.Underway sent queue todo round s) :
    queue.Pairwise (·.seconds ≤ ·.seconds) := by
  have hrising : g.events.Pairwise (·.seconds ≤ ·.seconds) := g.rising
  rw [h.split, List.append_assoc] at hrising
  exact (List.pairwise_append.mp (List.pairwise_append.mp hrising).2.1).1

omit [Hardware σ] in
/-- The timer that is due first is the one of the loop or the one of the first event that waits. -/
theorem eq_of_earliest? (h : g.Underway sent queue todo round s) {timer : Timer Alarm Rat}
    (hfirst : Clock.earliest? s.host.clock.timers = some timer) :
    timer = g.loopTimer (round + 1) ∨
      ∃ e rest, queue = e :: rest ∧ timer = g.messageTimer (e, g.loop + 1 + sent.length) ∧
        e.seconds < g.elapsed (round + 1) := by
  obtain ⟨before, after, hsplit, hbefore, -⟩ := Clock.of_earliest? hfirst
  rw [h.attends.timers] at hsplit
  cases before with
  | nil => exact .inl (List.cons.inj hsplit).1.symm
  | cons loop before =>
    obtain ⟨rfl, hmessages⟩ := List.cons.inj hsplit
    have hsorted : (g.messageTimers (g.loop + 1 + sent.length) queue).Pairwise (·.due ≤ ·.due) :=
      due_le_of_messageTimers h.queue_sorted
    cases queue with
    | nil => simp [messageTimers] at hmessages
    | cons e rest =>
      have hdue : timer.due < g.start + 1000 * g.elapsed (round + 1) :=
        hbefore _ List.mem_cons_self
      cases before with
      | nil =>
        obtain ⟨rfl, -⟩ := List.cons.inj hmessages
        refine .inr ⟨e, rest, rfl, rfl, ?_⟩
        change g.start + 1000 * e.seconds < _ at hdue
        linarith
      | cons other before =>
        -- messages that wait before it are due no later
        rw [hmessages] at hsorted
        have hle : other.due ≤ timer.due :=
          List.rel_of_pairwise_cons hsorted (List.mem_append_right _ List.mem_cons_self)
        exact absurd (hbefore other (List.mem_cons_of_mem _ List.mem_cons_self)) (not_lt.mpr hle)

theorem fireMessage {e : TimedEvent Rat} {rest : List (TimedEvent Rat)}
    (h : g.Underway sent (e :: rest) todo round s)
    (hfirst : Clock.earliest? s.host.clock.timers
      = some (g.messageTimer (e, g.loop + 1 + sent.length)))
    (hearly : e.seconds < g.elapsed (round + 1)) :
    g.Underway (sent ++ [e]) rest todo round
      (s.fire (g.messageTimer (e, g.loop + 1 + sent.length))) := by
  obtain ⟨hsent, hclock⟩ := h.attends.deliver
  have hcut : sent ++ [e] ++ rest = sent ++ e :: rest := by
    rw [List.append_assoc]
    rfl
  have hmem := Clock.mem_of_earliest? hfirst
  refine ⟨hsent, h.loop_eq, h.listener, ?_, ?_, ?_, h.ahead, ?_, fun timer htimer => ?_, h.not_over⟩
  · rw [hcut]
    exact h.player_eq
  · rw [hcut]
    exact h.split
  · rw [hcut]
    exact h.reached
  · exact List.forall_mem_append.mpr ⟨h.early, by simpa using hearly⟩
  · -- time has come to this timer, and no other one is due before it
    have hold : timer ∈ s.host.clock.timers := by
      have hkept := hsent.timers ▸ htimer
      rw [h.attends.timers, messageTimers_cons]
      rw [List.length_append] at hkept
      rcases List.mem_cons.mp hkept with rfl | hkept
      · exact List.mem_cons_self
      · exact List.mem_cons_of_mem _ (List.mem_cons_of_mem _ hkept)
    refine le_of_eq_of_le ?_ (Clock.due_le_of_earliest? hfirst hold)
    exact (congrArg Clock.now hclock).trans (Clock.now_fire (h.on_time _ hmem))

theorem fireLoop (h : g.Underway sent queue todo round s)
    (hfirst : Clock.earliest? s.host.clock.timers = some (g.loopTimer (round + 1))) :
    g.Ended (round + 1) (s.fire (g.loopTimer (round + 1))) ∨
      ∃ near rest, todo = near ++ rest ∧
        g.Underway sent (queue ++ near) rest (round + 1) (s.fire (g.loopTimer (round + 1))) := by
  have hmem := Clock.mem_of_earliest? hfirst
  -- the timer of the loop runs before those of the messages that still wait
  have hlate : ∀ e ∈ queue, g.elapsed (round + 1) ≤ e.seconds := fun e he => by
    obtain ⟨timer, htimer, hdue⟩ :
        ∃ timer ∈ g.messageTimers (g.loop + 1 + sent.length) queue,
          timer.due = g.start + 1000 * e.seconds := exists_messageTimer he
    have hwaits : timer ∈ s.host.clock.timers := by
      rw [h.attends.timers]
      exact List.mem_cons_of_mem _ htimer
    have hle : g.start + 1000 * g.elapsed (round + 1) ≤ timer.due :=
      Clock.due_le_of_earliest? hfirst hwaits
    linarith
  have hnow : (s.host.clock.fire (g.loopTimer (round + 1))).now
      = g.start + 1000 * g.elapsed (round + 1) := Clock.now_fire (h.on_time _ hmem)
  have ha := h.attends.fireLoop
  have hfire : s.fire (g.loopTimer (round + 1))
      = Stage.settle { s with host := { s.host with
          clock := s.host.clock.fire (g.loopTimer (round + 1)) } }
        ((g.playerAt (sent ++ queue).length).tick (g.time (round + 1))) := by
    rw [← h.player_eq, ← ha.time_eq hnow]
    rfl
  rw [hfire]
  refine ha.settle_tick hnow h.loop_eq h.listener h.split
    (fun e he => (h.reached e he).trans (g.horizon_le_succ round)) h.early ?_ ?_
  · refine List.forall_mem_append.mpr ⟨hlate, fun e he => ?_⟩
    exact (g.elapsed_succ_le_horizon round).trans (h.ahead e he).le
  · exact fun earlier hlt => h.not_over earlier (Nat.le_of_lt_succ hlt)

/-- **What a timer that runs does**: it sends the first event that waits, or is a round of the
loop. -/
theorem fire (h : g.Underway sent queue todo round s) {timer : Timer Alarm Rat}
    (hfirst : Clock.earliest? s.host.clock.timers = some timer) :
    (∃ e rest, queue = e :: rest ∧ g.Underway (sent ++ [e]) rest todo round (s.fire timer)) ∨
      (∃ near rest, todo = near ++ rest ∧
        g.Underway sent (queue ++ near) rest (round + 1) (s.fire timer)) ∨
      g.Ended (round + 1) (s.fire timer) := by
  rcases h.eq_of_earliest? hfirst with rfl | ⟨e, rest, rfl, rfl, hearly⟩
  · exact .inr (h.fireLoop hfirst).symm
  · exact .inl ⟨e, rest, rfl, h.fireMessage hfirst hearly⟩

/-- A recital that is under way comes to its end. -/
theorem exists_ended {last : Nat} (hover : g.Over last)
    {sent queue todo : List (TimedEvent Rat)} {round : Nat} {s : Stage (Device σ Rat) Rat}
    (h : g.Underway sent queue todo round s) :
    ∃ ended s', s.Unfolds s' ∧ g.Ended ended s' := by
  have hlt : round < last := not_le.mp fun hle => h.not_over last hle hover
  -- each timer that runs is a round nearer to the last one, or one message less to wait for
  obtain ⟨timer, hfirst⟩ : ∃ timer, Clock.earliest? s.host.clock.timers = some timer := by
    refine Option.ne_none_iff_exists'.mp fun hnone => ?_
    rw [Clock.earliest?_eq_none, h.attends.timers] at hnone
    cases hnone
  have hrest : (∃ ended s', (s.fire timer).Unfolds s' ∧ g.Ended ended s') := by
    rcases h.fire hfirst with ⟨e, rest, rfl, hnext⟩ | ⟨near, rest, -, hnext⟩ | hended
    · exact hnext.exists_ended hover
    · exact hnext.exists_ended hover
    · exact ⟨_, _, .start, hended⟩
  obtain ⟨ended, s', hunfolds, hended⟩ := hrest
  exact ⟨ended, s', (Stage.Unfolds.fire .start hfirst).trans hunfolds, hended⟩
termination_by (last - round, queue.length)

end Underway

/-! ## Every run -/

/-- Where a recital can be: under way, or at its end. -/
def Stands (g : Recital) (s : Stage (Device σ Rat) Rat) : Prop :=
  (∃ sent queue todo round, g.Underway sent queue todo round s) ∨ ∃ round, g.Ended round s

theorem Stands.unfolds (h : g.Stands s) {s' : Stage (Device σ Rat) Rat} (hu : s.Unfolds s') :
    g.Stands s' := by
  induction hu with
  | start => exact h
  | wait _ hlater hdue ih =>
    -- of the clock, only the timers count, and none is late
    rcases ih with ⟨sent, queue, todo, round, hunder⟩ | ⟨round, hended⟩
    · have ha := hunder.attends
      exact .inl ⟨sent, queue, todo, round, { hunder with
        attends := ⟨ha.timers, ha.started, ha.pending, ha.output, ha.alive, ha.made, ha.calls⟩
        on_time := hdue }⟩
    · exact .inr ⟨round, hended.finished, hended.first, hended.timers, hended.calls⟩
  | fire _ hfirst ih =>
    rcases ih with ⟨sent, queue, todo, round, hunder⟩ | ⟨round, hended⟩
    · rcases hunder.fire hfirst with ⟨e, rest, -, hnext⟩ | ⟨near, rest, -, hnext⟩ | hended
      · exact .inl ⟨_, _, _, _, hnext⟩
      · exact .inl ⟨_, _, _, _, hnext⟩
      · exact .inr ⟨_, hended⟩
    · rw [hended.timers] at hfirst
      cases hfirst

theorem Stands.exists_ended (h : g.Stands s) : ∃ round s', s.Unfolds s' ∧ g.Ended round s' := by
  rcases h with ⟨sent, queue, todo, round, hunder⟩ | ⟨round, hended⟩
  · obtain ⟨last, hover⟩ := g.exists_over
    exact hunder.exists_ended hover
  · exact ⟨round, s, .start, hended⟩

omit [Hardware σ] in
/-- There is one round at which a recital can end. -/
theorem Ended.round_unique {round' : Nat} {s' : Stage (Device σ Rat) Rat} (h : g.Ended round s)
    (h' : g.Ended round' s') : round = round' := by
  rcases Nat.lt_trichotomy round round' with hlt | heq | hlt
  · exact absurd h.finished (h'.first round hlt)
  · exact heq
  · exact absurd h'.finished (h.first round' hlt)

end Recital

end Playback

end LeadSheet
