import LeadSheet.Proofs.Playback.Incidents

/-!
# The pace of the loop

Whatever happens to a stage with an observer, there is one timer while the player plays, and none
otherwise (`one_loop`); and that timer comes round at the period that the player was made with
(`Stage.looping_of_incidents`). No turn changes the period, every loop that a reply starts is of
it, and a timer that repeats keeps its own.
-/

namespace LeadSheet.Playback

variable {α : Type}

/-! ## Replies -/

/-- All loops that a reply starts are of the player's period, and the period stays. -/
structure Reply.Paces (r : Reply α) (period : α) : Prop where
  period_eq : r.player.period = period
  loops : ∀ other, .startLoop other ∈ r.commands → other = period

theorem Reply.Paces.after {r : Reply α} {period : α} (h : r.Paces period)
    {commands : List (Command α)} (hcommands : ∀ other, .startLoop other ∈ commands →
      other = period) : (r.after commands).Paces period where
  period_eq := h.period_eq
  loops other hmem := (List.mem_append.mp hmem).elim (hcommands other) (h.loops other)

section

variable [Scalar α]

namespace Player

variable (p : Player α) (now : α)

theorem paces_tick : (p.tick now).Paces p.period := by
  by_cases hplaying : p.mode = .playing
  · obtain ⟨cursor, handed, htick | htick⟩ := tick_cases hplaying now
    · rw [htick]
      exact ⟨rfl, by simp⟩
    · rw [htick]
      exact ⟨rfl, by simp⟩
  · rw [tick, if_neg hplaying]
    exact ⟨rfl, by simp⟩

theorem paces_stop : p.stop.Paces p.period := by
  obtain ⟨given, hstop, -⟩ := p.exists_stop
  exact ⟨rfl, by simp [hstop]⟩

omit [Scalar α] in
theorem paces_setSound (track : String) (change : SoundChange α) :
    (p.setSound track change).Paces p.period := by
  unfold setSound
  split
  · exact ⟨rfl, by simp [setupOf]⟩
  · exact ⟨rfl, by simp⟩

theorem paces_take (turn : Turn α) : (p.take now turn).Paces p.period := by
  cases turn with
  | tick => exact p.paces_tick now
  | play =>
    change (p.play now).Paces p.period
    unfold play
    split
    · exact ⟨rfl, by simp⟩
    · have hstarted := paces_tick { p.startAt now p.heldPosition with mode := .playing } now
      refine hstarted.after fun other hmem => ?_
      -- the sounds of the channels start no loop
      rw [p.setups_eq] at hmem
      change other = p.period
      split at hmem <;> simpa using hmem
  | pause =>
    change (p.pause now).Paces p.period
    unfold pause
    split
    · exact ⟨rfl, by simp⟩
    · exact ⟨rfl, by simp⟩
  | stop => exact p.paces_stop
  | seek seconds =>
    change (p.seek now seconds).Paces p.period
    unfold seek
    dsimp only
    split
    · exact (paces_tick _ now).after (by simp)
    · exact ⟨rfl, by simp⟩
  | load timeline changes => exact ⟨p.paces_stop.period_eq, p.paces_stop.loops⟩
  | dispose => exact ⟨p.paces_stop.period_eq, fun other hmem => p.paces_stop.loops other
      (by simpa [take, dispose] using hmem)⟩
  | setVolume track volume => exact p.paces_setSound track _
  | setSound track change => exact p.paces_setSound track change

end Player

/-! ## Timers -/

namespace Stage

/-- A timer on a stage with an observer was there before, or is of a loop that was started. -/
theorem mem_timers_foldl_perform {commands : List (Command α)} {timer : Timer Alarm α} :
    ∀ {s : Stage (Observer α) α}, timer ∈ (commands.foldl perform s).host.clock.timers →
      timer ∈ s.host.clock.timers ∨
        ∃ period, .startLoop period ∈ commands ∧ timer.period = some period := by
  induction commands with
  | nil => exact .inl
  | cons command rest ih =>
    intro s hmem
    rcases ih hmem with hbefore | ⟨period, hstarted, hperiod⟩
    · cases command with
      | order given => exact .inl hbefore
      | startLoop period =>
        rcases Clock.mem_start hbefore with hold | ⟨-, hperiod, -⟩
        · exact .inl hold
        · exact .inr ⟨period, List.mem_cons_self, hperiod⟩
      | stopLoop =>
        change timer ∈ s.stopLoop.host.clock.timers at hbefore
        unfold stopLoop at hbefore
        split at hbefore
        · exact .inl hbefore
        · exact .inl (Clock.mem_cancel.mp hbefore).1
    · exact .inr ⟨period, List.mem_cons_of_mem _ hstarted, hperiod⟩

/-- All timers are of the player's period. -/
def Paced (s : Stage (Observer α) α) : Prop :=
  ∀ timer ∈ s.host.clock.timers, timer.period = some s.player.period

theorem persists_paced :
    Persists (fun _ => True) fun s : Stage (Observer α) α => s.Paced where
  take {s} turn h _ timer hmem := by
    have hpaces := s.player.paces_take s.time turn
    rw [Paced, carryOut, hpaces.period_eq] at *
    rcases mem_timers_foldl_perform hmem with hold | ⟨period, hstarted, hperiod⟩
    · exact h timer hold
    · rw [hperiod, hpaces.loops period hstarted]
  tell h := h
  say _ _ h := h
  listen _ h := h
  ring timer h left hmem := by
    rcases Clock.mem_fire hmem with ⟨hold, -⟩ | ⟨ran, hran, -, hagain⟩
    · exact h left hold
    · obtain ⟨period, hperiod, rfl⟩ := Option.map_eq_some_iff.mp hagain
      exact h ran hran
  deliver _ _ h := h
  wait _ h := h

/-- One timer, of the player's period, while the player plays, and none otherwise. -/
def Looping (s : Stage (Observer α) α) : Prop :=
  if s.player.mode = .playing then
    ∃ timer, s.host.clock.timers = [timer] ∧ timer.action = .loop ∧
      timer.period = some s.player.period ∧ s.loop = some timer.number
  else s.host.clock.timers = [] ∧ s.loop = none

theorem looping_of_incidents (shows : α → α) (now lookahead period : α) (timeline : Timeline α)
    (changes : List (String × SoundChange α)) (listener : Listener)
    (incidents : List (Incident α)) :
    (incidents.foldl undergo
      (observed shows now lookahead period timeline changes listener)).Looping := by
  have horderly :=
    orderly_of_incidents shows now lookahead period timeline changes listener incidents
  have hpaced : (incidents.foldl undergo
      (observed shows now lookahead period timeline changes listener)).Paced :=
    persists_paced.incidents nofun fun i _ => by
      unfold Incident.OfSongs
      split <;> trivial
  unfold Looping
  split
  · next hplaying =>
    obtain ⟨timer, htimers, haction, -, hloop⟩ :=
      horderly.alive (by simpa [isPlaying] using hplaying)
    exact ⟨timer, htimers, haction, hpaced timer (by simp [htimers]), hloop⟩
  · next hrest => exact horderly.idle (by simpa [isPlaying] using hrest)

end Stage

end

end LeadSheet.Playback
