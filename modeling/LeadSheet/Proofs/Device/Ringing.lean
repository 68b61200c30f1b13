import LeadSheet.Proofs.Device.Waiting
import LeadSheet.Proofs.Playback.Underway

/-!
# The timers of a device

A device is given orders, time passes, and timers run, in any order; no call is made, and none goes
on (`Turn.Plays`). A turn of this kind starts the timer of an event (`timerFor`), lets the next one
run, or drops all of them (`Usage.shift_take`). So timers run in the order in which they are due,
and those of one time in the order in which they were started (`Usage.ran_pairwise`). Time that
passes on a host is a course of such turns (`Usage.exists_plays_advance`).
-/

namespace LeadSheet.Device

open Playback (Alarm Clock Host Order Timer)

variable {σ : Type}

/-! ## Turns of play -/

/-- An order is given, time passes, or a timer runs; no call is made, and none goes on. -/
def Turn.Plays : Turn Rat → Prop
  | .order _ | .ring => True
  | .pass milliseconds => 0 ≤ milliseconds
  | .call _ | .resume _ => False

/-- All that waits is dropped. -/
def Turn.Drops (turn : Turn Rat) : Prop := turn = .order .cancelAll ∨ turn = .order .dispose

/-- The timer of an event that is scheduled for a time in seconds. It is due at that time, or at
once if the time has passed. -/
def timerFor (event : TimedEvent Rat) (seconds : Rat) (h : Host (Device σ Rat) Rat) :
    Timer Alarm Rat where
  number := h.clock.started
  due := h.synth.startTime + 1000 * max seconds (time h)
  period := none
  action := .message (messageOf event)

/-- The order in which timers run: by the time at which they are due, and those of one time by the
order in which they were started. -/
def Precedes (timer later : Timer Alarm Rat) : Prop :=
  timer.due < later.due ∨ timer.due = later.due ∧ timer.number < later.number

/-! ## The clock -/

/-- The clock goes on, and so does the count of timers. -/
structure Onward (h h' : Host (Device σ Rat) Rat) : Prop where
  now : h.clock.now ≤ h'.clock.now
  started : h.clock.started ≤ h'.clock.started
  startTime : h'.synth.startTime = h.synth.startTime

section

variable {h h' h'' : Host (Device σ Rat) Rat}

theorem Onward.refl (h : Host (Device σ Rat) Rat) : Onward h h := ⟨le_rfl, le_rfl, rfl⟩

theorem Onward.trans (hfirst : Onward h h') (hthen : Onward h' h'') : Onward h h'' where
  now := hfirst.now.trans hthen.now
  started := hfirst.started.trans hthen.started
  startTime := hthen.startTime.trans hfirst.startTime

theorem Onward.time_le (hon : Onward h h') : time h ≤ time h' := by
  rw [time_rat, time_rat, hon.startTime]
  have := hon.now
  linarith

theorem now_eq (h : Host (Device σ Rat) Rat) : h.clock.now = h.synth.startTime + 1000 * time h := by
  rw [time_rat]
  ring

theorem now_le_due_timerFor (event : TimedEvent Rat) (seconds : Rat)
    (h : Host (Device σ Rat) Rat) : h.clock.now ≤ (timerFor event seconds h).due := by
  have := le_max_right seconds (time h)
  rw [now_eq]
  dsimp only [timerFor]
  linarith

/-- An event that is scheduled on an open device waits in its timer. -/
theorem timers_schedule (event : TimedEvent Rat) (seconds : Rat)
    (hopen : ¬(h.synth.disposed || h.synth.output.isNone) = true) :
    (schedule event seconds h).clock.timers = h.clock.timers ++ [timerFor event seconds h] := by
  have hdue : h.clock.now + max 0 ((seconds - time h) * 1000)
      = h.synth.startTime + 1000 * max seconds (time h) := by
    rcases le_total seconds (time h) with hpast | hlater
    · rw [max_eq_right hpast, max_eq_left (by linarith), now_eq]
      ring
    · rw [max_eq_left hlater, max_eq_right (by linarith), now_eq]
      ring
  unfold schedule
  rw [if_neg hopen, Scalar.max_rat, Scalar.numeral_rat, Scalar.numeral_rat]
  push_cast
  dsimp only [update, Clock.startOnce, Clock.start]
  rw [hdue]
  rfl

theorem Undisturbed.onward (hsame : Undisturbed h h') : Onward h h' :=
  ⟨by rw [hsame.clock], by rw [hsame.clock], hsame.startTime⟩

variable [Hardware σ]

theorem onward_cancelAll (h : Host (Device σ Rat) Rat) : Onward h (cancelAll h) := by
  cases halive : h.synth.disposed with
  | true =>
    rw [cancelAll, if_pos halive]
    exact .refl h
  | false =>
    rw [cancelAll_of_alive halive]
    obtain ⟨hnow, hstarted⟩ := Clock.foldl_cancel_eq h.synth.pending h.clock
    obtain ⟨hardware, hsent⟩ := synth_sendAll (dropPending h) silence
    refine ⟨?_, ?_, by rw [hsent]; rfl⟩
    · rw [clock_sendAll]
      exact hnow.ge
    · rw [clock_sendAll]
      exact hstarted.ge

theorem onward_obey (order : Order Rat) (h : Host (Device σ Rat) Rat) :
    Onward h (obey order h) := by
  cases order with
  | setup setup =>
    unfold obey Device.setup
    dsimp only
    split
    · exact .refl h
    · obtain ⟨hardware, hsent⟩ := synth_sendAll h (setupMessages setup)
      exact ⟨by rw [clock_sendAll], by rw [clock_sendAll], by rw [hsent]⟩
  | schedule event seconds =>
    unfold obey schedule
    dsimp only
    split
    · exact .refl h
    · exact ⟨le_rfl, Nat.le_succ _, rfl⟩
  | cancelAll => exact onward_cancelAll h
  | dispose =>
    unfold obey Device.dispose
    dsimp only
    split
    · exact .refl h
    · have hclosed := undisturbed_closeOutput (cancelAll h)
      refine (onward_cancelAll h).trans ⟨?_, ?_, hclosed.startTime⟩ <;>
        simp only [update, hclosed.clock, le_refl]

theorem clock_fire (timer : Timer Alarm Rat) (h : Host (Device σ Rat) Rat) :
    (fire timer h).clock = h.clock.fire timer := by
  unfold fire
  dsimp only
  split
  · exact clock_deliver
  · rfl

theorem onward_fire (timer : Timer Alarm Rat) (h : Host (Device σ Rat) Rat) :
    Onward h (fire timer h) := by
  obtain ⟨pending, hardware, hfired⟩ := synth_fire timer h
  refine ⟨?_, ?_, by rw [hfired]⟩ <;> rw [clock_fire]
  · rw [Clock.now_fire_eq_max]
    exact le_max_left ..
  · exact le_rfl

end

namespace Usage

variable [Hardware σ]

/-- The timer that runs in a turn. -/
def ringing (u : Usage σ Rat) : Turn Rat → Option (Timer Alarm Rat)
  | .ring => u.next?
  | _ => none

/-- The timers that ran in the course of turns, in order. -/
def ran (u : Usage σ Rat) : List (Turn Rat) → List (Timer Alarm Rat)
  | [] => []
  | turn :: rest => (u.ringing turn).toList ++ (u.take turn).ran rest

/-! ## What a turn does to the timers -/

/-- What a turn of play does to the timers. -/
inductive Shift (u : Usage σ Rat) (turn : Turn Rat) : Prop where
  | keeps (silent : u.ringing turn = none) (kept : ¬turn.Drops)
      (timers : (u.take turn).host.clock.timers = u.host.clock.timers)
  | books (event : TimedEvent Rat) (seconds : Rat)
      (turn_eq : turn = .order (.schedule event seconds))
      (timers : (u.take turn).host.clock.timers
        = u.host.clock.timers ++ [timerFor event seconds u.host])
  | runs (timer : Timer Alarm Rat) (turn_eq : turn = .ring) (next : u.next? = some timer)
      (host : (u.take turn).host = fire timer u.host)
      (timers : (u.take turn).host.clock.timers
        = u.host.clock.timers.filter (·.number ≠ timer.number))
  | drops (drops : turn.Drops) (timers : (u.take turn).host.clock.timers = [])

variable {u : Usage σ Rat} {turn : Turn Rat} {turns : List (Turn Rat)}

/-- Time does not go back. -/
theorem onward_take (u : Usage σ Rat) (hplays : turn.Plays) :
    Onward u.host (u.take turn).host := by
  cases u.happening turn with
  | idle _ hidle => exact hidle.onward
  | opens _ _ _ hopens => exact hopens.onward
  | obeys order _ hhost => exact hhost ▸ onward_obey order u.host
  | passes milliseconds hturn hhost =>
    subst hturn
    exact hhost ▸ ⟨le_add_of_nonneg_right hplays, le_rfl, rfl⟩
  | fires timer _ _ hhost => exact hhost ▸ onward_fire timer u.host

theorem onward_run (u : Usage σ Rat) (hplays : ∀ turn ∈ turns, turn.Plays) :
    Onward u.host (u.run turns).host := by
  induction turns generalizing u with
  | nil => exact .refl u.host
  | cons turn rest ih =>
    obtain ⟨hfirst, hrest⟩ := List.forall_mem_cons.mp hplays
    exact (u.onward_take hfirst).trans (ih _ hrest)

theorem shift_take (hb : Booked u.host) (hplays : turn.Plays) : u.Shift turn := by
  cases turn with
  | call request => exact hplays.elim
  | resume number => exact hplays.elim
  | order order =>
    cases order with
    | setup setup =>
      refine .keeps rfl (by simp [Turn.Drops]) ?_
      change (Device.setup setup u.host).clock.timers = _
      unfold Device.setup
      split
      · rfl
      · rw [clock_sendAll]
    | schedule event seconds =>
      by_cases hopen : (u.host.synth.disposed || u.host.synth.output.isNone) = true
      · refine .keeps rfl (by simp [Turn.Drops]) ?_
        change (schedule event seconds u.host).clock.timers = _
        rw [schedule, if_pos hopen]
      · exact .books event seconds rfl (timers_schedule event seconds hopen)
    | cancelAll => exact .drops (.inl rfl) hb.timers_cancelAll
    | dispose => exact .drops (.inr rfl) hb.timers_dispose
  | pass milliseconds => exact .keeps rfl (by simp [Turn.Drops]) rfl
  | ring =>
    cases hnext : u.next? with
    | none =>
      exact .keeps hnext (by simp [Turn.Drops]) (by rw [take_ring_of_none hnext])
    | some timer =>
      refine .runs timer rfl hnext (by rw [take_ring hnext]) ?_
      rw [take_ring hnext, clock_fire, Clock.timers_fire_of_once timer hb.once]

/-! ## Timers that run -/

omit [Hardware σ] in
theorem mem_of_ringing {timer : Timer Alarm Rat} (hring : u.ringing turn = some timer) :
    timer ∈ u.host.clock.timers := by
  cases turn with
  | ring => exact Clock.mem_of_earliest? hring
  | call _ | resume _ | order _ | pass _ => cases hring

/-- A timer that runs waited already, or was started on the way. -/
theorem mem_ran (hb : Booked u.host) (hplays : ∀ turn ∈ turns, turn.Plays)
    {timer : Timer Alarm Rat} (hmem : timer ∈ u.ran turns) :
    timer ∈ u.host.clock.timers ∨ u.host.clock.started ≤ timer.number := by
  induction turns generalizing u with
  | nil => cases hmem
  | cons turn rest ih =>
    obtain ⟨hfirst, hrest⟩ := List.forall_mem_cons.mp hplays
    rcases List.mem_append.mp hmem with hring | hlater
    · exact .inl (mem_of_ringing (Option.mem_toList.mp hring))
    · rcases ih (hb.take turn) hrest hlater with hwaits | hstarted
      · cases shift_take hb hfirst with
        | keeps _ _ htimers => exact .inl (htimers ▸ hwaits)
        | books event seconds _ htimers =>
          rw [htimers] at hwaits
          rcases List.mem_append.mp hwaits with hold | hnew
          · exact .inl hold
          · rw [List.mem_singleton.mp hnew]
            exact .inr le_rfl
        | runs ran _ _ _ htimers =>
          rw [htimers] at hwaits
          exact .inl (List.mem_filter.mp hwaits).1
        | drops _ htimers =>
          rw [htimers] at hwaits
          cases hwaits
      · exact .inr ((u.onward_take hfirst).started.trans hstarted)

/-- A timer that is gone does not run any more. -/
theorem not_mem_ran (hb : Booked u.host) (hplays : ∀ turn ∈ turns, turn.Plays)
    {timer : Timer Alarm Rat} (hgone : timer ∉ u.host.clock.timers)
    (hstarted : timer.number < u.host.clock.started) : timer ∉ u.ran turns := fun hmem =>
  (mem_ran hb hplays hmem).elim hgone fun hle => absurd hstarted (not_lt.mpr hle)

end Usage

/-! ## The order of a run -/

/-- Whatever waits now, or will wait later, runs behind a timer. -/
structure Follows (last : Timer Alarm Rat) (h : Host (Device σ Rat) Rat) : Prop where
  number : last.number < h.clock.started
  due : last.due ≤ h.clock.now
  waiting : ∀ timer ∈ h.clock.timers, Precedes last timer

/-- The timer that runs next is the first one of all. -/
theorem follows_fire [Hardware σ] {h : Host (Device σ Rat) Rat} (hb : Booked h)
    {timer : Timer Alarm Rat} (hnext : Clock.earliest? h.clock.timers = some timer) :
    Follows timer (fire timer h) where
  number := by
    rw [clock_fire]
    exact hb.started timer (Clock.mem_of_earliest? hnext)
  due := by
    rw [clock_fire, Clock.now_fire_eq_max]
    exact le_max_right ..
  waiting other hmem := by
    rw [clock_fire, Clock.timers_fire_of_once timer hb.once] at hmem
    obtain ⟨hwaits, hother⟩ := List.mem_filter.mp hmem
    obtain ⟨before, after, hsplit, hbefore, hafter⟩ := Clock.of_earliest? hnext
    have hordered := hb.ordered
    rw [hsplit] at hwaits hordered
    rcases List.mem_append.mp hwaits with hmem | hmem
    · exact .inl (hbefore other hmem)
    · rcases List.mem_cons.mp hmem with rfl | hmem
      · simp at hother
      · -- those behind it are due no earlier, and were started later
        have hlater := (List.pairwise_cons.mp (List.pairwise_append.mp hordered).2.1).1 other hmem
        exact (hafter other hmem).lt_or_eq.imp_right fun hdue => ⟨hdue, hlater⟩

namespace Usage

variable [Hardware σ] {u : Usage σ Rat} {turn : Turn Rat} {turns : List (Turn Rat)}
  {last : Timer Alarm Rat}

theorem follows_take (hb : Booked u.host) (hplays : turn.Plays) (hf : Follows last u.host) :
    Follows last (u.take turn).host where
  number := hf.number.trans_le (u.onward_take hplays).started
  due := hf.due.trans (u.onward_take hplays).now
  waiting timer hmem := by
    cases shift_take hb hplays with
    | keeps _ _ htimers => exact hf.waiting timer (htimers ▸ hmem)
    | books event seconds _ htimers =>
      rw [htimers] at hmem
      rcases List.mem_append.mp hmem with hold | hnew
      · exact hf.waiting timer hold
      · -- what is scheduled now is not due before now
        obtain rfl := List.mem_singleton.mp hnew
        have hdue := hf.due.trans (now_le_due_timerFor event seconds u.host)
        exact hdue.lt_or_eq.imp_right fun hsame => ⟨hsame, hf.number⟩
    | runs _ _ _ _ htimers =>
      rw [htimers] at hmem
      exact hf.waiting timer (List.mem_filter.mp hmem).1
    | drops _ htimers =>
      rw [htimers] at hmem
      cases hmem

theorem follows_run (hb : Booked u.host) (hplays : ∀ turn ∈ turns, turn.Plays)
    (hf : Follows last u.host) :
    Follows last (u.run turns).host ∧ ∀ timer ∈ u.ran turns, Precedes last timer := by
  induction turns generalizing u with
  | nil => exact ⟨hf, fun _ hmem => by cases hmem⟩
  | cons turn rest ih =>
    obtain ⟨hfirst, hrest⟩ := List.forall_mem_cons.mp hplays
    obtain ⟨hend, hlater⟩ := ih (hb.take turn) hrest (follows_take hb hfirst hf)
    exact ⟨hend, List.forall_mem_append.mpr
      ⟨fun timer hmem => hf.waiting timer (mem_of_ringing (Option.mem_toList.mp hmem)), hlater⟩⟩

/-- **Timers run in the order in which they are due**, and those of one time in the order in which
they were started; and what waits in the end runs behind all that ran. -/
theorem ran_pairwise (hb : Booked u.host) (hplays : ∀ turn ∈ turns, turn.Plays) :
    (u.ran turns).Pairwise Precedes ∧
      ∀ timer ∈ u.ran turns, Follows timer (u.run turns).host := by
  induction turns generalizing u with
  | nil => exact ⟨.nil, fun _ hmem => by cases hmem⟩
  | cons turn rest ih =>
    obtain ⟨hfirst, hrest⟩ := List.forall_mem_cons.mp hplays
    obtain ⟨hordered, hend⟩ := ih (hb.take turn) hrest
    cases hring : u.ringing turn with
    | none =>
      rw [ran, hring]
      exact ⟨hordered, hend⟩
    | some timer =>
      cases turn with
      | ring =>
        have hfollows : Follows timer (u.take .ring).host := by
          rw [take_ring hring]
          exact follows_fire hb hring
        obtain ⟨hlast, hlater⟩ := follows_run (hb.take .ring) hrest hfollows
        rw [ran, hring]
        exact ⟨List.pairwise_cons.mpr ⟨hlater, hordered⟩, List.forall_mem_cons.mpr ⟨hlast, hend⟩⟩
      | call _ | resume _ | order _ | pass _ => cases hring

/-! ## Time that passes -/

theorem take_pass (u : Usage σ Rat) (milliseconds : Rat) :
    (u.take (.pass milliseconds)).host
      = { u.host with clock := u.host.clock.jump milliseconds } := rfl

/-- The timers that fall due in a stretch of time run in turns. -/
theorem exists_rings (stop : Rat) : ∀ (steps : Nat) (u : Usage σ Rat), u.host.clock.now ≤ stop →
    ∃ rings, (u.run (List.replicate rings .ring)).host
        = Clock.runDue (·.clock) (fun h timer => fire timer h) stop steps u.host ∧
      (u.run (List.replicate rings .ring)).host.clock.now ≤ stop
  | 0, u, hnow => ⟨0, rfl, hnow⟩
  | steps + 1, u, hnow => by
    unfold Clock.runDue
    split
    · exact ⟨0, rfl, hnow⟩
    · next timer htimer =>
      have hnext : u.next? = some timer := Clock.earliest?_of_filter htimer
      have hdue : timer.due ≤ stop := by
        simpa using (List.mem_filter.mp (Clock.mem_of_earliest? htimer)).2
      have hfired : (u.take .ring).host.clock.now ≤ stop := by
        rw [take_ring hnext, clock_fire, Clock.now_fire_eq_max]
        exact max_le hnow hdue
      obtain ⟨rings, hrings, hlater⟩ := exists_rings stop steps (u.take .ring) hfired
      refine ⟨rings + 1, hrings.trans ?_, hlater⟩
      rw [take_ring hnext]

/-- **Time that passes on a host is a course of such turns.** -/
theorem exists_plays_advance (u : Usage σ Rat) {milliseconds : Rat} (hpasses : 0 ≤ milliseconds) :
    ∃ turns : List (Turn Rat), (∀ turn ∈ turns, turn.Plays) ∧
      (u.run turns).host = u.host.advance milliseconds := by
  obtain ⟨rings, hrings, hnow⟩ := exists_rings (u.host.clock.now + milliseconds) Clock.runLimit u
    (le_add_of_nonneg_right hpasses)
  refine ⟨List.replicate rings .ring ++ [.pass (u.host.clock.now + milliseconds
    - (u.run (List.replicate rings .ring)).host.clock.now)], ?_, ?_⟩
  · refine List.forall_mem_append.mpr ⟨fun turn hmem => ?_, ?_⟩
    · rw [List.eq_of_mem_replicate hmem]
      exact trivial
    · simpa [Turn.Plays] using hnow
  · generalize hlate : u.run (List.replicate rings .ring) = late at hrings
    have hjump : late.host.clock.jump (u.host.clock.now + milliseconds - late.host.clock.now)
        = { late.host.clock with now := u.host.clock.now + milliseconds } := by
      rw [Clock.jump, add_sub_cancel]
    rw [run_append, hlate, run_cons, run_nil, take_pass, hjump, hrings]
    unfold Host.advance
    generalize Clock.runLimit = steps
    rfl

end Usage

end LeadSheet.Device
