import LeadSheet.Proofs.Device.Closing
import LeadSheet.Proofs.Device.Ringing

/-!
# The delivery of events

An event that is scheduled on a device with an open port waits in a timer, and of what becomes of it
there are three cases (`Usage.Fate`): it waits still, or it left when its timer ran, or it was
dropped. Nothing else sends notes (`Usage.notes_run`).
-/

namespace LeadSheet.Device

open Playback (Alarm Call Clock Host Order Port Timer)

variable {σ : Type}

/-- The notes that were started and ended, in order. -/
def notes (calls : List (Call Rat)) : List (Port × List UInt8) :=
  (sent calls).filter (Midi.isNote ·.2)

/-- What a timer sends when it runs. -/
def sending? (port : Port) (timer : Timer Alarm Rat) : Option (Port × List UInt8) :=
  match timer.action with
  | .message bytes => some (port, bytes)
  | .loop => none

/-- Messages go to a port, unless the device was disposed of. -/
def Serves (port : Port) (h : Host (Device σ Rat) Rat) : Prop :=
  h.synth.disposed = false → h.synth.output = some port

variable [Hardware σ]

namespace Usage

/-- What becomes of a message that waits in a timer. -/
inductive Fate (u : Usage σ Rat) (port : Port) (message : List UInt8) (timer : Timer Alarm Rat)
    (turns : List (Turn Rat)) : Prop where
  /-- It waits still, and nothing was dropped. -/
  | waits (kept : ∀ turn ∈ turns, ¬turn.Drops) (unsent : timer ∉ u.ran turns)
      (waiting : timer ∈ (u.run turns).host.clock.timers)
  /-- It was sent when its timer ran, which was the next one and ran once; before that nothing was
  dropped. -/
  | leaves (before after : List (Turn Rat)) (split : turns = before ++ .ring :: after)
      (kept : ∀ turn ∈ before, ¬turn.Drops) (next : (u.run before).next? = some timer)
      (calls : ((u.run before).take .ring).host.calls
        = (u.run before).host.calls ++ [.send port message])
      (moment : ((u.run before).take .ring).host.clock.now
        = max (u.run before).host.clock.now timer.due)
      (once : (u.ran turns).count timer = 1)
  /-- It was dropped, and its timer never ran. -/
  | drops (before : List (Turn Rat)) (turn : Turn Rat) (after : List (Turn Rat))
      (split : turns = before ++ turn :: after) (drops : turn.Drops) (unsent : timer ∉ u.ran turns)

variable {u : Usage σ Rat} {turn : Turn Rat} {turns : List (Turn Rat)} {port : Port}

/-! ## The port -/

/-- The port that is open stays open up to the disposal. -/
theorem output_take_of_plays (hplays : turn.Plays) (hstays : turn ≠ .order .dispose) :
    (u.take turn).host.synth.output = u.host.synth.output := by
  cases turn with
  | call request => exact hplays.elim
  | resume number => exact hplays.elim
  | order order =>
    obtain ⟨pending, hardware, hobeyed⟩ :=
      synth_obey (fun hdispose => hstays (congrArg Turn.order hdispose)) u.host
    change (obey order u.host).synth.output = _
    rw [hobeyed]
  | pass milliseconds => rfl
  | ring =>
    cases hnext : u.next? with
    | none => rw [take_ring_of_none hnext]
    | some timer =>
      obtain ⟨pending, hardware, hfired⟩ := synth_fire timer u.host
      rw [take_ring hnext, hfired]

theorem serves_take (hs : Serves port u.host) (hplays : turn.Plays) :
    Serves port (u.take turn).host := by
  intro halive
  obtain ⟨hbefore, hstays⟩ := not_or.mp ((u.disposed_take turn).not.mp (by simp [halive]))
  exact (output_take_of_plays hplays hstays).trans (hs (Bool.eq_false_iff.mpr hbefore))

theorem serves_run (hs : Serves port u.host) (hplays : ∀ turn ∈ turns, turn.Plays) :
    Serves port (u.run turns).host := by
  induction turns generalizing u with
  | nil => exact hs
  | cons turn rest ih =>
    obtain ⟨hfirst, hrest⟩ := List.forall_mem_cons.mp hplays
    exact ih (serves_take hs hfirst) hrest

end Usage

/-- A timer that runs sends its message. -/
theorem calls_fire {h : Host (Device σ Rat) Rat} {port : Port} (hb : Booked h) (hs : Serves port h)
    {timer : Timer Alarm Rat} (hmem : timer ∈ h.clock.timers) {bytes : List UInt8}
    (haction : timer.action = .message bytes) :
    (fire timer h).calls = h.calls ++ [.send port bytes] := by
  have halive : h.synth.disposed = false := Bool.eq_false_iff.mpr fun hdisposed => by
    rw [hb.disposed hdisposed] at hmem
    cases hmem
  unfold fire
  rw [haction]
  dsimp only
  unfold deliver
  dsimp only
  split
  · next hdisposed => exact absurd (halive.symm.trans hdisposed) Bool.false_ne_true
  · exact calls_send bytes (hs halive)

namespace Usage

variable {u : Usage σ Rat} {turn : Turn Rat} {turns : List (Turn Rat)} {port : Port}

/-! ## The fate of a message -/

/-- A message that a turn leaves waiting has the fate that comes to it afterwards. -/
theorem Fate.cons {message : List UInt8} {timer : Timer Alarm Rat} {rest : List (Turn Rat)}
    (hfate : (u.take turn).Fate port message timer rest) (hkept : ¬turn.Drops)
    (hring : u.ringing turn ≠ some timer) : u.Fate port message timer (turn :: rest) := by
  have hother : timer ∉ (u.ringing turn).toList := fun hmem => hring (Option.mem_toList.mp hmem)
  cases hfate with
  | waits kept unsent waiting =>
    exact .waits (List.forall_mem_cons.mpr ⟨hkept, kept⟩)
      (fun hmem => (List.mem_append.mp hmem).elim hother unsent) waiting
  | leaves before after split kept next calls moment once =>
    refine .leaves (turn :: before) after (congrArg (turn :: ·) split)
      (List.forall_mem_cons.mpr ⟨hkept, kept⟩) next calls moment ?_
    rw [ran, List.count_append, List.count_eq_zero.mpr hother, once]
  | drops before drop after split drops unsent =>
    exact .drops (turn :: before) drop after (congrArg (turn :: ·) split) drops
      fun hmem => (List.mem_append.mp hmem).elim hother unsent

/-- **A message that waits is sent when its timer runs, once, or it is dropped, or waits still.** -/
theorem fate (hb : Booked u.host) (hs : Serves port u.host) (hplays : ∀ turn ∈ turns, turn.Plays)
    {timer : Timer Alarm Rat} (hmem : timer ∈ u.host.clock.timers) {message : List UInt8}
    (haction : timer.action = .message message) : u.Fate port message timer turns := by
  induction turns generalizing u with
  | nil => exact .waits (by simp) (by simp [ran]) hmem
  | cons turn rest ih =>
    obtain ⟨hfirst, hrest⟩ := List.forall_mem_cons.mp hplays
    have hnext : timer ∈ (u.take turn).host.clock.timers →
        (u.take turn).Fate port message timer rest :=
      ih (hb.take turn) (serves_take hs hfirst) hrest
    have hgone : timer ∉ (u.take turn).host.clock.timers → timer ∉ (u.take turn).ran rest :=
      fun hgone => not_mem_ran (hb.take turn) hrest hgone
        ((hb.started timer hmem).trans_le (u.onward_take hfirst).started)
    cases shift_take hb hfirst with
    | keeps silent kept htimers =>
      exact (hnext (htimers ▸ hmem)).cons kept (by simp [silent])
    | books event seconds hturn htimers =>
      subst hturn
      exact (hnext (htimers ▸ List.mem_append_left _ hmem)).cons (by simp [Turn.Drops])
        (by simp [ringing])
    | runs ran hturn hring hhost htimers =>
      subst hturn
      by_cases hsame : timer.number = ran.number
      · -- no other timer has this number
        obtain rfl : timer = ran := hb.eq_of_number hmem (Clock.mem_of_earliest? hring) hsame
        refine .leaves [] rest rfl (by simp) hring ?_ ?_ ?_
        · exact hhost ▸ calls_fire hb hs hmem haction
        · rw [run_nil, hhost, clock_fire, Clock.now_fire_eq_max]
        · rw [Usage.ran, show u.ringing .ring = some timer from hring, List.count_append,
            List.count_eq_zero.mpr (hgone (by simp [htimers]))]
          simp
      · refine (hnext ?_).cons (by simp [Turn.Drops]) fun hrings => hsame ?_
        · rw [htimers]
          exact List.mem_filter.mpr ⟨hmem, by simpa using hsame⟩
        · rw [Option.some.inj (hring.symm.trans hrings)]
    | drops hdrops htimers =>
      refine .drops [] turn rest rfl hdrops fun hran => ?_
      rcases List.mem_append.mp hran with hrings | hlater
      · rcases hdrops with rfl | rfl <;> cases hrings
      · exact hgone (by simp [htimers]) hlater

/-! ## The notes of a run -/

omit [Hardware σ] in
theorem notes_of_unsounding {h h' : Host (Device σ Rat) Rat} (hsame : Unsounding h h') :
    notes h'.calls = notes h.calls := by
  obtain ⟨more, hcalls, hmore⟩ := hsame
  have hnone : notes more = [] := by
    refine List.filter_eq_nil_iff.mpr fun entry hmem hnote => ?_
    obtain ⟨call, hcall, hentry⟩ := List.mem_filterMap.mp hmem
    cases call with
    | send port message =>
      cases hentry
      exact hmore _ hcall ⟨port, message, hnote, rfl⟩
    | order _ | ended | loadEngine | openOutput _ _ | close _ => cases hentry
  rw [hcalls, notes, sent, List.filterMap_append, List.filter_append, ← sent, ← sent, ← notes,
    ← notes, hnone, List.append_nil]

/-- **The notes that are sent are those of the timers that run.** -/
theorem notes_run (hb : Booked u.host) (hs : Serves port u.host)
    (hplays : ∀ turn ∈ turns, turn.Plays) :
    notes (u.run turns).host.calls
      = notes u.host.calls ++ (u.ran turns).filterMap (sending? port) := by
  induction turns generalizing u with
  | nil => exact (List.append_nil _).symm
  | cons turn rest ih =>
    obtain ⟨hfirst, hrest⟩ := List.forall_mem_cons.mp hplays
    have hturn : notes (u.take turn).host.calls
        = notes u.host.calls ++ (u.ringing turn).toList.filterMap (sending? port) := by
      cases hring : u.ringing turn with
      | none =>
        refine (notes_of_unsounding ?_).trans (List.append_nil _).symm
        cases turn with
        | ring =>
          rw [take_ring_of_none hring]
          exact .of_calls rfl
        | call _ | resume _ | order _ | pass _ => exact u.unsounding_take nofun
      | some timer =>
        cases turn with
        | ring =>
          have hmem := mem_of_ringing hring
          obtain ⟨event, haction⟩ := hb.event timer hmem
          rw [take_ring hring, calls_fire hb hs hmem haction]
          simp [notes, sent, sending?, haction, isNote_messageOf]
        | call _ | resume _ | order _ | pass _ => cases hring
    rw [run_cons, ih (hb.take turn) (serves_take hs hfirst) hrest, hturn, ran,
      List.filterMap_append, List.append_assoc]

end Usage

/-! ## Every run -/

/-- **Events are delivered once and in order, or never.** From whatever led to an open port, and for
every course of orders, of time that passes and of timers that run:

* an event that is scheduled on a device that was not disposed of is sent to the port at the time
  for which it was scheduled, or at once if that has passed, or later if its timer is late, and this
  once, unless everything that waits was dropped before; and then it is never sent;
* the notes that are sent are those of the timers that run;
* of two events the one that was scheduled first, and for no later a time, does not leave behind the
  other, and does not wait any more when the other has left;
* nothing is sent behind a disposal;
* all that is sent are messages of channels. -/
theorem delivered_once_in_order (now : Rat) (hardware : σ) (earlier : List (Turn Rat))
    {turns : List (Turn Rat)} {port : Port}
    (hport : ((Usage.made now hardware).run earlier).host.synth.output = some port)
    (hplays : ∀ turn ∈ turns, turn.Plays) :
    let start := (Usage.made now hardware).run earlier
    let u := start.run turns
    (∀ before event seconds after, turns = before ++ .order (.schedule event seconds) :: after →
      let scheduling := start.run before
      scheduling.host.synth.disposed = false →
        (scheduling.take (.order (.schedule event seconds))).Fate port (messageOf event)
          (timerFor event seconds scheduling.host) after) ∧
    notes u.host.calls
      = notes start.host.calls ++ (start.ran turns).filterMap (sending? port) ∧
    (∀ before event seconds between event' seconds' after,
      turns = before ++ .order (.schedule event seconds) :: between ++
        .order (.schedule event' seconds') :: after → seconds ≤ seconds' →
      let first := timerFor event seconds (start.run before).host
      let second := timerFor event' seconds'
        (start.run (before ++ .order (.schedule event seconds) :: between)).host
      ¬[second, first].Sublist (start.ran turns) ∧
        (second ∈ start.ran turns → first ∉ u.host.clock.timers)) ∧
    (∀ before after, turns = before ++ .order .dispose :: after →
      sent u.host.calls = sent (start.run (before ++ [.order .dispose])).host.calls) ∧
    ∀ entry ∈ sent u.host.calls, Midi.IsChannelMessage entry.2 := by
  intro start u
  have hb : Booked start.host := (Booked.made now hardware).run earlier
  have hs : Serves port start.host := fun _ => hport
  refine ⟨?_, Usage.notes_run hb hs hplays, ?_, ?_, (hb.run turns).sent⟩
  · rintro before event seconds after rfl scheduling halive
    obtain ⟨hbefore, hplays⟩ := List.forall_mem_append.mp hplays
    obtain ⟨hschedule, hafter⟩ := List.forall_mem_cons.mp hplays
    have hserves := Usage.serves_run hs hbefore
    refine Usage.fate ((hb.run before).take _) (Usage.serves_take hserves hschedule) hafter ?_ rfl
    -- the port is open, and so the event waits
    change _ ∈ (schedule event seconds scheduling.host).clock.timers
    rw [timers_schedule event seconds (by rw [halive, hserves halive]; nofun)]
    exact List.mem_append_right _ (List.mem_singleton_self _)
  · rintro before event seconds between event' seconds' after rfl hle first second
    have hon : Onward (start.run before).host
        (start.run (before ++ .order (.schedule event seconds) :: between)).host := by
      rw [Usage.run_append]
      refine Usage.onward_run _ fun turn hmem => hplays turn ?_
      exact List.mem_append_left _ (List.mem_append_right _ hmem)
    have hdue : first.due ≤ second.due := by
      have := max_le_max hle hon.time_le
      have := hon.startTime
      dsimp only [first, second, timerFor]
      linarith
    have horder : ¬Precedes second first := fun hprecedes => hprecedes.elim (not_lt.mpr hdue)
      fun hsame => not_lt.mpr hon.started hsame.2
    obtain ⟨hordered, hend⟩ := Usage.ran_pairwise hb hplays
    exact ⟨fun hsub => horder (List.pairwise_iff_forall_sublist.mp hordered hsub),
      fun hran hwaits => horder ((hend second hran).waiting first hwaits)⟩
  · rintro before after rfl
    have hsplit : u = (start.run (before ++ [.order .dispose])).run after := by
      rw [← Usage.run_append, List.append_assoc, List.singleton_append]
    rw [hsplit]
    exact Usage.sent_run ((start.disposed_run _).mpr (.inr (List.mem_append_right _
      (List.mem_singleton_self _)))) after

/-- The end of the note. -/
def lifted : TimedEvent Rat := ⟨.noteOff, 0, 0, 60, 0, "Piano"⟩

/-- The first output is opened. -/
def opening : List (Turn Rat) := .call .start :: List.replicate 5 (.resume 0)

/-- A note is played, the start of another one is dropped, and so is a third one. -/
def cutShort : List (Turn Rat) :=
  [.order (.schedule struck 1), .order (.schedule lifted 2), .pass 1500, .ring, .ring,
    .order (.schedule struck 3), .order .cancelAll, .order (.schedule struck 3), .order .dispose,
    .ring]

/-- The note is started late, it is ended in time, and the two that were dropped are never heard. -/
theorem delivered_once_in_order_cutShort :
    let start := (Usage.made (0 : Rat) twoOutputs).run opening
    let u := start.run cutShort
    let again := start.run (cutShort.take 7)
    start.host.synth.output = some ⟨0, 0⟩ ∧ (∀ turn ∈ cutShort, turn.Plays) ∧
      (start.take (.order (.schedule struck 1))).Fate ⟨0, 0⟩ (messageOf struck)
        (timerFor struck 1 start.host) (cutShort.drop 1) ∧
      (again.take (.order (.schedule struck 3))).Fate ⟨0, 0⟩ (messageOf struck)
        (timerFor struck 3 again.host) (cutShort.drop 8) ∧
      notes u.host.calls
        = [(⟨0, 0⟩, Midi.noteOn 0 60 100), (⟨0, 0⟩, Midi.noteOff 0 60 0)] ∧
      ¬[timerFor lifted 2 (start.run (cutShort.take 1)).host, timerFor struck 1 start.host].Sublist
        (start.ran cutShort) ∧
      sent u.host.calls = sent (start.run (cutShort.take 9)).host.calls ∧
      ∀ entry ∈ sent u.host.calls, Midi.IsChannelMessage entry.2 := by
  have hport : ((Usage.made (0 : Rat) twoOutputs).run opening).host.synth.output
      = some ⟨0, 0⟩ := by
    decide +kernel
  have hplays : ∀ turn ∈ cutShort, turn.Plays := by
    simp [cutShort, Turn.Plays]
  obtain ⟨hfate, hnotes, horder, hsilent, hmessages⟩ :=
    delivered_once_in_order (0 : Rat) twoOutputs opening hport hplays
  have hheard : notes ((Usage.made (0 : Rat) twoOutputs).run opening).host.calls ++
      (((Usage.made (0 : Rat) twoOutputs).run opening).ran cutShort).filterMap (sending? ⟨0, 0⟩)
        = [(⟨0, 0⟩, Midi.noteOn 0 60 100), (⟨0, 0⟩, Midi.noteOff 0 60 0)] := by
    decide +kernel
  exact ⟨hport, hplays, hfate [] struck 1 (cutShort.drop 1) rfl (by decide +kernel),
    hfate (cutShort.take 7) struck 3 (cutShort.drop 8) rfl (by decide +kernel),
    hnotes.trans hheard, (horder [] struck 1 [] lifted 2 (cutShort.drop 2) rfl (by norm_num)).1,
    hsilent (cutShort.take 8) (cutShort.drop 9) rfl, hmessages⟩

end LeadSheet.Device
