import LeadSheet.Playback.Stage

/-!
# What a player answers

What the operations of a player can answer, said once: a round of the loop hands events over and
moves the cursor, or ends the song (`Player.tick_cases`); the channels get their sounds by orders;
stopping ends the loop. On a stage, commands that go first are carried out first, and none of them
changes the listener.
-/

namespace LeadSheet.Playback

variable {α : Type}

namespace Player

/-! ## Rounds -/

section

variable [Scalar α]

theorem of_dispatch? {p : Player α} {now : α} {event : TimedEvent α} {command : Command α}
    (h : p.dispatch? now event = some command) :
    ∃ time, command = .order (.schedule event time) := by
  unfold dispatch? at h
  dsimp only at h
  split at h
  · cases h
  · exact ⟨_, (Option.some.inj h).symm⟩

/-- The events that a round comes upon are handed over by orders. -/
theorem exists_dispatch (p : Player α) (now : α) (events : List (TimedEvent α)) :
    ∃ handed : List (Order α), events.filterMap (p.dispatch? now) = handed.map .order := by
  induction events with
  | nil => exact ⟨[], rfl⟩
  | cons event rest ih =>
    obtain ⟨handed, hrest⟩ := ih
    rw [List.filterMap_cons, hrest]
    split
    · exact ⟨handed, rfl⟩
    · next command hsome =>
      obtain ⟨time, rfl⟩ := of_dispatch? hsome
      exact ⟨.schedule event time :: handed, rfl⟩

/-- **A round of the loop** hands events over and moves the cursor. At the end of the song it stops
the loop, silences the synthesizer behind the events, and rewinds. -/
theorem tick_cases {p : Player α} (hplaying : p.mode = .playing) (now : α) :
    ∃ (cursor : Nat) (handed : List (Order α)),
      p.tick now = ⟨{ p with cursor }, handed.map .order, false⟩ ∨
      p.tick now = ⟨rewound { p with cursor },
        handed.map .order ++ [.stopLoop, .order .cancelAll], true⟩ := by
  obtain ⟨handed, hhanded⟩ := exists_dispatch p now (p.upcoming now)
  rw [tick, if_pos hplaying]
  dsimp only
  rw [hhanded]
  split
  · exact ⟨_, handed, .inr rfl⟩
  · exact ⟨_, handed, .inl rfl⟩

/-- Whether the player plays or not, a round moves the cursor, and at the end of the song it
rewinds. -/
theorem player_tick (p : Player α) (now : α) : ∃ cursor,
    (p.tick now).player = { p with cursor } ∨ (p.tick now).player = rewound { p with cursor } := by
  by_cases hplaying : p.mode = .playing
  · obtain ⟨cursor, handed, htick | htick⟩ := tick_cases hplaying now
    · exact ⟨cursor, .inl (by rw [htick])⟩
    · exact ⟨cursor, .inr (by rw [htick])⟩
  · exact ⟨p.cursor, .inl (by rw [tick, if_neg hplaying])⟩

/-- Stopping ends the loop, and silences the synthesizer unless that was done before. -/
theorem exists_stop (p : Player α) :
    ∃ given : List (Order α), p.stop.commands = .stopLoop :: given.map .order ∧
      (∀ event time, .schedule event time ∉ given) ∧ (p.mode = .playing → .cancelAll ∈ given) := by
  by_cases hstopped : p.mode = .stopped
  · exact ⟨[], if_pos hstopped, fun _ _ => List.not_mem_nil, fun h => by simp [h] at hstopped⟩
  · exact ⟨[.cancelAll], if_neg hstopped, by simp, by simp⟩

end

/-! ## Sounds -/

/-- The sounds that the channels get. -/
def channelSetups (p : Player α) : List (ChannelSetup α) :=
  p.timeline.channels.filterMap fun a => (p.sounds.get? a.track).map fun sound => ⟨a.channel, sound⟩

theorem setups_eq (p : Player α) :
    p.setups = (p.channelSetups.map Order.setup).map .order := by
  unfold setups channelSetups
  rw [List.map_map, List.map_filterMap]
  congr 1
  funext a
  rw [Option.map_map]
  rfl

theorem player_setSound (p : Player α) (track : String) (change : SoundChange α) :
    ∃ sounds, (p.setSound track change).player = { p with sounds } := by
  unfold setSound
  split
  · exact ⟨_, rfl⟩
  · exact ⟨p.sounds, rfl⟩

end Player

/-! ## On a stage -/

namespace Stage

variable {ω : Type} [Scalar α] [Synth ω α]

theorem carryOut_after (s : Stage ω α) (commands : List (Command α)) (reply : Reply α) :
    s.carryOut (reply.after commands) = (commands.foldl perform s).carryOut reply := by
  rw [carryOut, Reply.after, List.foldl_append]
  rfl

theorem settle_after (s : Stage ω α) (commands : List (Command α)) (reply : Reply α) :
    s.settle (reply.after commands) = (commands.foldl perform s).settle reply := by
  unfold settle
  rw [carryOut_after]
  rfl

omit [Scalar α] [Synth ω α] in
theorem listener_stopLoop (s : Stage ω α) : s.stopLoop.listener = s.listener := by
  unfold stopLoop
  split <;> rfl

theorem listener_foldl_perform (commands : List (Command α)) (s : Stage ω α) :
    (commands.foldl perform s).listener = s.listener := by
  induction commands generalizing s with
  | nil => rfl
  | cons command rest ih =>
    rw [List.foldl_cons, ih]
    cases command with
    | order order => rfl
    | startLoop period => rfl
    | stopLoop => exact listener_stopLoop s

/-- No command changes the listener. -/
theorem listener_carryOut (s : Stage ω α) (reply : Reply α) :
    (s.carryOut reply).listener = s.listener :=
  listener_foldl_perform reply.commands s

end Stage

end LeadSheet.Playback
