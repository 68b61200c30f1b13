import LeadSheet.Proofs.Playback.Dispatch
import LeadSheet.Proofs.Playback.Observer
import LeadSheet.Proofs.Playback.Replies

/-!
# One loop, and only while playing

A player on a stage is put through anything: its user acts, time passes, timers run, also stale
ones, and the listener may raise an error or play again at once. Whatever comes, there is one timer
while the player plays and none otherwise, events are handed over only while that timer is alive,
whatever takes the player out of playing silences the synthesizer behind the last event, and the
listener hears of every end of playback once (`one_loop`).

The synthesizer is an `Observer`, and a lemma for each thing that happens to the stage says that it
is a `Course`.
-/

namespace LeadSheet.Playback

variable {α : Type} [Scalar α]

/-- Whether the player plays. -/
def Stage.isPlaying {ω : Type} (s : Stage ω α) : Bool := s.player.mode = .playing

/-- What comes of a reply: playing goes on, or it is over and the listener is still to be told. -/
def Stage.Plays (net : Int) (looping : Bool) (s : Stage (Observer α) α) (reply : Reply α) : Prop :=
  reply.ended = false ∧ (s.carryOut reply).isPlaying = true ∧
      Course net looping s true (s.carryOut reply) ∨
    reply.ended = true ∧ (s.carryOut reply).isPlaying = false ∧
      (s.carryOut reply).host.calls.getLast? = some (.order .cancelAll) ∧
      Course (net - 1) looping s false (s.carryOut reply)

namespace Stage

variable {net : Int} {looping : Bool} {s : Stage (Observer α) α} {p : Player α} {now : α}

theorem Orderly.plays_tick (h : s.Orderly true) (hplaying : p.mode = .playing) (now : α) :
    s.Plays 0 true (p.tick now) := by
  -- the round hands events over, and then playing goes on or comes to its end
  obtain ⟨cursor, handed, htick | htick⟩ := Player.tick_cases hplaying now
  · rw [htick]
    have hcourse := h.orders handed nofun
    exact .inl ⟨rfl, by simp [isPlaying, carryOut, hplaying],
      hcourse.trans_zero (hcourse.orderly.withPlayer _)⟩
  · rw [htick]
    have hcourse := h.orders handed nofun
    have hhalt := hcourse.orderly.halt [.cancelAll] (by simp) (by simp)
    have hall := (hcourse.trans hhalt).trans_zero
      (hhalt.orderly.withPlayer (Player.rewound { p with cursor }))
    rw [← List.foldl_append] at hall
    refine .inr ⟨rfl, by simp [isPlaying, carryOut, Player.rewound], ?_, hall⟩
    -- silencing is the last order of all
    have hcalls := congrArg (fun s => s.host.calls) (foldl_perform_orders [.cancelAll]
      ((handed.map Command.order).foldl perform s).stopLoop)
    rw [carryOut, List.foldl_append]
    exact (congrArg List.getLast? hcalls).trans List.getLast?_concat

theorem Plays.after {commands : List (Command α)} {reply : Reply α}
    (hcourse : Course net looping s true (commands.foldl perform s))
    (h : (commands.foldl perform s).Plays 0 true reply) :
    s.Plays net looping (reply.after commands) := by
  unfold Plays at h ⊢
  rw [carryOut_after]
  rcases h with ⟨hended, hplaying, hon⟩ | ⟨hended, hrest, hlast, hover⟩
  · exact .inl ⟨hended, hplaying, hcourse.trans_zero hon⟩
  · exact .inr ⟨hended, hrest, hlast, (hcourse.trans hover).of_net (by omega)⟩

/-- Playing starts with the sounds and the loop, and goes on with a round. -/
theorem Orderly.plays_play (h : s.Orderly false) (hrest : p.mode ≠ .playing) (now : α) :
    s.Plays 1 false (p.play now) := by
  have hfirst : Course 0 false s false
      ((if p.mode = .stopped then p.setups else []).foldl perform s) := by
    split
    · rw [p.setups_eq]
      exact h.orders _ fun _ => by simp
    · exact h.withPlayer s.player
  have hopening := hfirst.trans (hfirst.orderly.startLoop p.period)
  rw [Player.play, if_neg hrest]
  refine Plays.after ?_ ?_
  · rw [List.foldl_append]
    exact hopening
  · rw [List.foldl_append]
    exact hopening.orderly.plays_tick rfl now

theorem Orderly.plays_seek (h : s.Orderly true) (hplaying : p.mode = .playing) (now seconds : α) :
    s.Plays 0 true (p.seek now seconds) := by
  have hopening := h.orders [.cancelAll] nofun
  rw [Player.seek, if_pos hplaying]
  exact Plays.after hopening (hopening.orderly.plays_tick (p := p.startAt now _) hplaying now)

/-! ## The end of playback -/

/-- However often the listener plays again, it is told of every end. -/
theorem Orderly.replay : ∀ (times : Nat) {s : Stage (Observer α) α}, s.Orderly false →
    s.isPlaying = false → s.listener = .replaying times →
    Course 0 false s (replay times s).isPlaying (replay times s)
  | 0, s, h, hrest, hlistener => by
    change Course 0 false s s.isPlaying _
    rw [hrest]
    exact (h.relisten hlistener (Nat.le_refl 0)).of_net (by omega)
  | times + 1, s, h, hrest, hlistener => by
    have hplays := h.plays_play (p := s.player) (by simpa [isPlaying] using hrest) s.time
    have hsame := (listener_carryOut s (s.player.play s.time)).trans hlistener
    unfold Stage.replay
    dsimp only
    rcases hplays with ⟨hended, hplaying, hon⟩ | ⟨hended, hidle, hlast, hover⟩
    · rw [if_neg (by simp [hended])]
      change Course 0 false s (s.carryOut (s.player.play s.time)).isPlaying _
      rw [hplaying]
      exact (hon.trans (hon.orderly.relisten hsame (Nat.le_succ times))).of_net (by omega)
    · rw [if_pos hended]
      -- the stretch that was begun is over at once, and the listener is told and goes on
      have hagain := hover.trans (hover.orderly.relisten hsame (Nat.le_succ times))
      have htold := hagain.trans (hagain.orderly.tell hlast)
      exact (htold.trans (htold.orderly.replay times hidle rfl)).of_net (by omega)

/-- The listener is told of an end. -/
theorem Orderly.notify (h : s.Orderly false) (hrest : s.isPlaying = false)
    (hlast : s.host.calls.getLast? = some (.order .cancelAll)) :
    Course 1 false s s.notify.isPlaying s.notify := by
  have htold := h.tell hlast
  unfold Stage.notify
  split
  · next habsent =>
    rw [hrest]
    exact (h.withPlayer s.player).of_absent habsent
  · change Course 1 false s s.isPlaying _
    rw [hrest]
    exact htold
  · next fault _ =>
    have hsaid (text : String) : Course 0 false s.noteEnd false
        { s.noteEnd with host := s.noteEnd.host.say .error text } :=
      htold.orderly.unchanged rfl rfl rfl rfl rfl
    change Course 1 false s s.isPlaying _
    rw [hrest]
    exact htold.trans_zero (hsaid _)
  · next times hlistener =>
    exact htold.trans_zero (htold.orderly.replay times hrest hlistener)

theorem Plays.settle {reply : Reply α} (h : s.Plays net looping reply) :
    Course net looping s (s.settle reply).isPlaying (s.settle reply) := by
  unfold Stage.settle
  rcases h with ⟨hended, hplaying, hon⟩ | ⟨hended, hrest, hlast, hover⟩
  · rw [if_neg (by simp [hended]), hplaying]
    exact hon
  · rw [if_pos hended]
    exact (hover.trans (hover.orderly.notify hrest hlast)).of_net (by omega)

/-! ## What happens -/

theorem Orderly.settle_stay (h : s.Orderly s.isPlaying) {reply : Reply α} (given : List (Order α))
    (hgiven : ∀ event time, .schedule event time ∉ given)
    (hreply : reply.commands = given.map .order) (hended : reply.ended = false)
    (hmode : reply.player.mode = s.player.mode) :
    Course 0 s.isPlaying s (s.settle reply).isPlaying (s.settle reply) := by
  have hcourse := h.orders given fun _ => hgiven
  have hsame : (s.settle reply).isPlaying = s.isPlaying := by
    simp [settle, hended, isPlaying, carryOut, hmode]
  rw [hsame, settle, if_neg (by simp [hended]), carryOut, hreply]
  exact hcourse.trans_zero (hcourse.orderly.withPlayer reply.player)

theorem Orderly.settle_halt (h : s.Orderly s.isPlaying) {reply : Reply α} (given : List (Order α))
    (hgiven : ∀ event time, .schedule event time ∉ given)
    (hsilence : s.isPlaying = true → .cancelAll ∈ given)
    (hreply : reply.commands = .stopLoop :: given.map .order) (hended : reply.ended = false)
    (hmode : reply.player.mode ≠ .playing) :
    Course (-s.isPlaying.toNat) s.isPlaying s (s.settle reply).isPlaying (s.settle reply) := by
  have hcourse := h.halt given hgiven hsilence
  have hrest : (s.settle reply).isPlaying = false := by
    simp [settle, hended, isPlaying, carryOut, hmode]
  rw [hrest, settle, if_neg (by simp [hended]), carryOut, hreply]
  exact hcourse.trans_zero (hcourse.orderly.withPlayer reply.player)

theorem Orderly.settle_sound (h : s.Orderly s.isPlaying) (track : String) (change : SoundChange α) :
    Course 0 s.isPlaying s (s.settle (s.player.setSound track change)).isPlaying
      (s.settle (s.player.setSound track change)) := by
  unfold Player.setSound
  split
  · exact h.settle_stay [.setup _] (by simp) rfl rfl rfl
  · exact h.settle_stay [] (by simp) rfl rfl rfl

theorem Orderly.settle_tick (h : s.Orderly s.isPlaying) (now : α) :
    Course 0 s.isPlaying s (s.settle (s.player.tick now)).isPlaying
      (s.settle (s.player.tick now)) := by
  by_cases hplaying : s.player.mode = .playing
  · have halive : s.isPlaying = true := by simpa [isPlaying] using hplaying
    rw [halive] at h ⊢
    exact (h.plays_tick hplaying now).settle
  · have hidle : s.player.tick now = ⟨s.player, [], false⟩ := if_neg hplaying
    rw [hidle]
    exact h.settle_stay [] (by simp) rfl rfl rfl

/-- A timer leaves the loop as it is: one that repeats is due again. -/
theorem Orderly.withFired (h : s.Orderly looping) (timer : Timer Alarm α) :
    Course 0 looping s looping
      { s with host := { s.host with clock := s.host.clock.fire timer } } := by
  refine ⟨⟨fun halive => ?_, fun hidle => ?_, h.heard, h.told⟩, Iff.rfl,
    Nat.le_refl _, (h.withPlayer s.player).calls⟩
  · obtain ⟨other, htimers, haction, hrepeats, hloop⟩ := h.alive halive
    -- a timer that was cancelled before it could run has another number
    by_cases hsame : other.number = timer.number
    · obtain ⟨period, hperiod⟩ := Option.ne_none_iff_exists'.mp hrepeats
      refine ⟨{ other with due := other.due + period }, ?_, haction, hrepeats, hloop⟩
      simp [Clock.fire, htimers, hsame, Timer.again, hperiod]
    · refine ⟨other, ?_, haction, hrepeats, hloop⟩
      simp [Clock.fire, htimers, hsame]
  · obtain ⟨htimers, hloop⟩ := h.idle hidle
    exact ⟨by simp [Clock.fire, htimers], hloop⟩

theorem Orderly.fire (h : s.Orderly s.isPlaying) (timer : Timer Alarm α) :
    Course 0 s.isPlaying s (s.fire timer).isPlaying (s.fire timer) := by
  have hfired := h.withFired timer
  unfold Stage.fire
  dsimp only
  split
  · have hticked := Orderly.settle_tick
      (s := { s with host := { s.host with clock := s.host.clock.fire timer } }) hfired.orderly
    exact hfired.trans_zero (hticked _)
  · exact hfired

theorem Orderly.advance (h : s.Orderly s.isPlaying) (milliseconds : α) :
    Course 0 s.isPlaying s (s.advance milliseconds).isPlaying (s.advance milliseconds) := by
  let Follows (state : Stage (Observer α) α) : Prop :=
    Course 0 s.isPlaying s state.isPlaying state
  have hfire : ∀ (state : Stage (Observer α) α) (timer : Timer Alarm α),
      Follows state → timer ∈ state.host.clock.timers → Follows (state.fire timer) :=
    fun state timer hstate _ => hstate.trans_zero (hstate.orderly.fire timer)
  have hrun (stop : α) (steps : Nat) :
      Follows (Clock.runDue (·.host.clock) Stage.fire stop steps s) :=
    Clock.runDue_induction hfire steps s (h.withPlayer s.player)
  have hall := hrun (s.host.clock.now + milliseconds) Clock.runLimit
  exact hall.trans_zero (hall.orderly.withTime _)

end Stage

/-! ## Every run -/

/-- Something that happens: the user acts or time passes, or a timer runs. -/
inductive Incident (α : Type) where
  | act (action : Action α)
  | fire (timer : Timer Alarm α)

/-- Whether the user breaks playing off, if there is any. -/
def Incident.breaksOff : Incident α → Bool
  | .act .pause | .act .stop | .act (.load _ _) | .act .dispose => true
  | _ => false

/-- Whether the user starts playing, if there is none. -/
def Incident.begins : Incident α → Bool
  | .act .play => true
  | _ => false

/-- Something happens to a stage. -/
def Stage.undergo {ω : Type} [Synth ω α] (s : Stage ω α) : Incident α → Stage ω α
  | .act action => s.act action
  | .fire timer => s.fire timer

namespace Stage

variable {looping : Bool} {s : Stage (Observer α) α}

theorem Orderly.undergo (h : s.Orderly s.isPlaying) (i : Incident α) :
    Course
      (if i.breaksOff then -s.isPlaying.toNat
        else if i.begins then 1 - s.isPlaying.toNat else 0)
      s.isPlaying s (s.undergo i).isPlaying (s.undergo i) := by
  have hnone : ∀ event time, .schedule event time ∉ ([] : List (Order α)) :=
    fun _ _ => List.not_mem_nil
  have hstopped : Mode.stopped ≠ Mode.playing := by decide
  cases i with
  | fire timer => exact h.fire timer
  | act action =>
    cases action with
    | advance milliseconds => exact h.advance milliseconds
    | jump milliseconds => exact h.withTime _
    | play =>
      change Course (1 - s.isPlaying.toNat) _ _ _ _
      by_cases hplaying : s.player.mode = .playing
      · have halive : s.isPlaying = true := by simpa [isPlaying] using hplaying
        change Course _ _ _ (s.settle (s.player.play s.time)).isPlaying (s.settle _)
        rw [Player.play, if_pos hplaying]
        exact (h.settle_stay [] hnone rfl rfl rfl).of_net (by rw [halive]; rfl)
      · have hidle : s.isPlaying = false := by simpa [isPlaying] using hplaying
        rw [hidle] at h ⊢
        exact (h.plays_play hplaying _).settle
    | pause =>
      change Course (-s.isPlaying.toNat) _ _ (s.settle (s.player.pause s.time)).isPlaying
        (s.settle _)
      unfold Player.pause
      split
      · exact h.settle_halt [.cancelAll] (by simp) (by simp) rfl rfl (by simp)
      · next hrest =>
        have hidle : s.isPlaying = false := by simpa [isPlaying] using hrest
        exact (h.settle_stay [] hnone rfl rfl rfl).of_net (by rw [hidle]; rfl)
    | stop =>
      obtain ⟨given, hstop, hnothing, hsilence⟩ := s.player.exists_stop
      exact h.settle_halt given hnothing (by simpa [isPlaying] using hsilence) hstop rfl
        hstopped
    | load timeline changes =>
      obtain ⟨given, hstop, hnothing, hsilence⟩ := s.player.exists_stop
      exact h.settle_halt given hnothing (by simpa [isPlaying] using hsilence) hstop rfl
        hstopped
    | dispose =>
      obtain ⟨given, hstop, hnothing, hsilence⟩ := s.player.exists_stop
      refine h.settle_halt (given ++ [.dispose]) (by simpa using hnothing) ?_ ?_ rfl hstopped
      · intro hplaying
        exact List.mem_append_left _ (hsilence (by simpa [isPlaying] using hplaying))
      · simp [Player.dispose, hstop]
    | seek seconds =>
      change Course 0 _ _ (s.settle (s.player.seek s.time seconds)).isPlaying (s.settle _)
      by_cases hplaying : s.player.mode = .playing
      · have halive : s.isPlaying = true := by simpa [isPlaying] using hplaying
        rw [halive] at h ⊢
        exact (h.plays_seek hplaying _ seconds).settle
      · rw [Player.seek, if_neg hplaying]
        exact h.settle_stay [] hnone rfl rfl rfl
    | setVolume track volume => exact h.settle_sound track _
    | setSound track change => exact h.settle_sound track change

/-- Who breaks playing off does not change the listener. -/
theorem listener_undergo {i : Incident α} (hbreaks : i.breaksOff = true)
    (s : Stage (Observer α) α) : (s.undergo i).listener = s.listener := by
  have hsettle (reply : Reply α) (hended : reply.ended = false) :
      (s.settle reply).listener = s.listener := by
    rw [settle, if_neg (by simp [hended]), listener_carryOut]
  unfold Incident.breaksOff at hbreaks
  split at hbreaks
  · refine hsettle (s.player.pause s.time) ?_
    unfold Player.pause
    split <;> rfl
  · exact hsettle _ rfl
  · exact hsettle _ rfl
  · exact hsettle _ rfl
  · cases hbreaks

/-- A player with an observer, before anything has happened. -/
def observed (shows : α → α) (now lookahead period : α) (timeline : Timeline α)
    (changes : List (String × SoundChange α)) (listener : Listener) : Stage (Observer α) α where
  player := Player.ofTimeline lookahead period timeline changes
  host := .startingAt now ⟨shows, []⟩
  loop := none
  listener

/-- **Whatever happens, all is in order.** -/
theorem orderly_of_incidents (shows : α → α) (now lookahead period : α) (timeline : Timeline α)
    (changes : List (String × SoundChange α)) (listener : Listener)
    (incidents : List (Incident α)) :
    let s := incidents.foldl undergo
      (observed shows now lookahead period timeline changes listener)
    s.Orderly s.isPlaying := by
  have hstart : (observed shows now lookahead period timeline changes listener).Orderly false := by
    refine ⟨nofun, fun _ => ⟨rfl, rfl⟩, nofun, fun before _ hsplit => ?_⟩
    cases before <;> cases hsplit
  have hrun (incidents : List (Incident α)) {s : Stage (Observer α) α}
      (h : s.Orderly s.isPlaying) :
      (incidents.foldl undergo s).Orderly (incidents.foldl undergo s).isPlaying := by
    induction incidents generalizing s with
    | nil => exact h
    | cons i rest ih => exact ih (h.undergo i).orderly
  exact hrun incidents hstart

end Stage

/-- **There is one loop, and only while playing.** A player with an observer, of any clock and with
any listener, is put through any incidents, and then through one more. One loop is alive if it plays
and none otherwise; whenever an event was handed over, the loop was alive; and whenever the listener
was told of an end, the synthesizer had been silenced just before. If the last incident took the
player out of playing, it silenced the synthesizer behind all that it handed over. The listener is
never told of an end because the user breaks playing off; otherwise it is told once for each
stretch of playing that was going on or begun, by the user or by a listener that plays again, and
does not go on. -/
theorem one_loop (shows : α → α) (now lookahead period : α) (timeline : Timeline α)
    (changes : List (String × SoundChange α)) (listener : Listener)
    (incidents : List (Incident α)) (i : Incident α) :
    let s := incidents.foldl Stage.undergo
      (Stage.observed shows now lookahead period timeline changes listener)
    let s' := s.undergo i
    (s.host.clock.loops = if s.player.mode = .playing then 1 else 0) ∧
      (∀ heard ∈ s.host.synth.heard, ∀ event time, heard.order = .schedule event time →
        heard.loops = 1) ∧
      ToldInSilence s.host.calls ∧
      ∃ more, s'.host.calls = s.host.calls ++ more ∧
        (s.player.mode = .playing → s'.player.mode ≠ .playing → Silenced more) ∧
        s'.listener.plays ≤ s.listener.plays ∧
        (s.listener ≠ .absent →
          if i.breaksOff then endings more = 0
          else endings more + s'.isPlaying.toNat + s'.listener.plays
            = (s.isPlaying || i.begins).toNat + s.listener.plays) := by
  intro s s'
  have h : s.Orderly s.isPlaying :=
    Stage.orderly_of_incidents shows now lookahead period timeline changes listener incidents
  have hcourse : Course _ s.isPlaying s s'.isPlaying s' := h.undergo i
  obtain ⟨more, hcalls, hquiet, hbooks⟩ := hcourse.calls
  refine ⟨?_, h.heard, h.told, more, hcalls, fun hplaying hrest => ?_, hcourse.plays_le,
    fun hthere => ?_⟩
  · rw [h.loops_eq]
    by_cases hplaying : s.player.mode = .playing <;> simp [Stage.isPlaying, hplaying]
  · have halive : s.isPlaying = true := by simpa [Stage.isPlaying] using hplaying
    rcases hquiet (by simpa [Stage.isPlaying] using hrest) with hsilenced | ⟨hidle, -⟩
    · exact hsilenced
    · exact absurd (halive.symm.trans hidle) Bool.noConfusion
  · have hsum := hbooks hthere
    split at hsum
    · next hbreaks =>
      rw [Stage.listener_undergo hbreaks] at hsum
      rw [if_pos hbreaks]
      omega
    · next hgoes =>
      rw [if_neg hgoes]
      split at hsum
      · next hbegins =>
        rw [hbegins, Bool.or_true, Bool.toNat_true]
        omega
      · next hnot =>
        rw [Bool.eq_false_iff.mpr hnot, Bool.or_false]
        omega

/-- A round of the loop at the end of a song of two seconds tells the listener once. -/
theorem one_loop_oneNote :
    let s := [Incident.act .play, .act (.jump 2000)].foldl Stage.undergo
      (Stage.observed (· / 1000) 0 (1 / 10) 25 oneNote [] (.failing ⟨"Error", "boom"⟩))
    let s' := s.undergo (.fire ⟨0, 25, some 25, .loop⟩)
    s.host.clock.loops = 1 ∧ ∃ more, s'.host.calls = s.host.calls ++ more ∧ Silenced more ∧
      endings more = 1 := by
  intro s s'
  have hplaying : s.player.mode = .playing := by decide +kernel
  have hrest : s'.player.mode ≠ .playing := by decide +kernel
  have hthere : s.listener ≠ .absent := by decide +kernel
  obtain ⟨hloops, -, -, more, hcalls, hsilenced, -, hbooks⟩ :=
    one_loop (· / 1000) 0 (1 / 10) 25 oneNote [] (.failing ⟨"Error", "boom"⟩)
      [Incident.act .play, .act (.jump 2000)] (.fire ⟨0, 25, some 25, .loop⟩)
  refine ⟨hloops.trans (if_pos hplaying), more, hcalls, hsilenced hplaying hrest, ?_⟩
  have hsum : endings more + s'.isPlaying.toNat + s'.listener.plays
      = (s.isPlaying || false).toNat + s.listener.plays := hbooks hthere
  have hplays : s.listener.plays = 0 ∧ s'.listener.plays = 0 := by decide +kernel
  have hrounds : s.isPlaying = true ∧ s'.isPlaying = false := by decide +kernel
  rw [hplays.1, hplays.2, hrounds.1, hrounds.2] at hsum
  exact hsum

end LeadSheet.Playback
