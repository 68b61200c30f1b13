import LeadSheet.Proofs.Playback.Dispatch
import LeadSheet.Proofs.Playback.Replies

/-!
# The playhead stays in the song

A player is asked things at readings of a clock that never goes back, in any order, and also its
loop may come round at any time. In exact arithmetic the playhead stands within the song at all
times. While playing it goes forward only, unless it is moved; at rest neither the clock nor the
loop move it; and pausing leaves it where it is (`playhead_in_song`).

Where the playhead is follows from one field while playing and from another one at rest, so the
invariant is about both (`Player.InSong`): the held place lies in the song, and playing started at a
place that is not before the song and at a time that is not yet to come. It is kept by the clock and
by each turn; behind a tick there is little to look at, since a tick moves the cursor, or rewinds.
-/

namespace LeadSheet.Playback

/-- Something that is asked of a player, by its user or by its loop. -/
inductive Turn (α : Type) where
  /-- A round of the loop. -/
  | tick
  | play
  | pause
  | stop
  | seek (seconds : α)
  | load (timeline : Timeline α) (changes : List (String × SoundChange α))
  | dispose
  | setVolume (track : String) (volume : α)
  | setSound (track : String) (change : SoundChange α)

namespace Turn

variable {α : Type}

/-- Whether the playhead is moved within the song. -/
def isSeek : Turn α → Bool
  | .seek _ => true
  | _ => false

/-- Whether the turn may move a playhead that rests. -/
def moves : Turn α → Bool
  | .play | .stop | .seek _ | .load _ _ | .dispose => true
  | .tick | .pause | .setVolume _ _ | .setSound _ _ => false

/-- No song is taken that lasts less than no time. -/
def Lasting : Turn Rat → Prop
  | .load timeline _ => 0 ≤ timeline.durationSeconds
  | _ => True

end Turn

/-- The answer to a turn at a reading of the clock. -/
def Player.take {α : Type} [Scalar α] (p : Player α) (now : α) : Turn α → Reply α
  | .tick => p.tick now
  | .play => p.play now
  | .pause => p.pause now
  | .stop => p.stop
  | .seek seconds => p.seek now seconds
  | .load timeline changes => p.load timeline changes
  | .dispose => p.dispose
  | .setVolume track volume => p.setVolume track volume
  | .setSound track change => p.setSound track change

/-- What a player comes to by turns of some kind, as the clock goes on, while all that it comes to
is of some kind. -/
inductive Player.Passes (kind : Player Rat → Prop) (allowed : Turn Rat → Prop) (p : Player Rat)
    (now : Rat) : Player Rat → Rat → Prop where
  | here : Passes kind allowed p now p now
  | wait {q : Player Rat} {time later : Rat} :
      Passes kind allowed p now q time → time ≤ later → Passes kind allowed p now q later
  | take {q : Player Rat} {time : Rat} (turn : Turn Rat) :
      Passes kind allowed p now q time → allowed turn → kind (q.take time turn).player →
        Passes kind allowed p now (q.take time turn).player time

/-- What a player of songs that last no less than no time can come to, and the last reading of the
clock. -/
inductive Player.Alive : Player Rat → Rat → Prop where
  | made (lookahead period : Rat) (timeline : Timeline Rat)
      (changes : List (String × SoundChange Rat)) (now : Rat) : 0 ≤ timeline.durationSeconds →
        Alive (Player.ofTimeline lookahead period timeline changes) now
  | wait {p : Player Rat} {now later : Rat} : Alive p now → now ≤ later → Alive p later
  | take {p : Player Rat} {now : Rat} (turn : Turn Rat) : Alive p now → turn.Lasting →
      Alive (p.take now turn).player now

namespace Player

variable {p : Player Rat} {now later : Rat}

/-! ## The invariant -/

/-- Both places that the playhead may be read from lie in the song. -/
structure InSong (p : Player Rat) (now : Rat) : Prop where
  duration_nonneg : 0 ≤ p.duration
  held_nonneg : 0 ≤ p.heldPosition
  held_le : p.heldPosition ≤ p.duration
  start_nonneg : p.mode = .playing → 0 ≤ p.startPosition
  start_le : p.mode = .playing → p.startTime ≤ now

namespace InSong

theorem position_nonneg (h : p.InSong now) : 0 ≤ p.position now := by
  unfold position
  split
  · next hplaying =>
    have hstart := h.start_nonneg hplaying
    have htime := h.start_le hplaying
    rw [Scalar.min_rat, le_min_iff]
    refine ⟨?_, h.duration_nonneg⟩
    unfold reached
    linarith
  · exact h.held_nonneg

theorem position_le (h : p.InSong now) : p.position now ≤ p.duration := by
  unfold position
  split
  · rw [Scalar.min_rat]
    exact min_le_right _ _
  · exact h.held_le

/-! ## What keeps it -/

theorem wait (h : p.InSong now) (hlater : now ≤ later) : p.InSong later :=
  ⟨h.duration_nonneg, h.held_nonneg, h.held_le, h.start_nonneg,
    fun hplaying => (h.start_le hplaying).trans hlater⟩

/-- At rest at the start of the song. -/
theorem of_start (hrest : p.mode ≠ .playing) (hheld : p.heldPosition = Scalar.ofNat 0)
    (hduration : 0 ≤ p.duration) : p.InSong now := by
  rw [Scalar.ofNat_rat, Nat.cast_zero] at hheld
  exact ⟨hduration, hheld.ge, hheld.le.trans hduration, fun hplaying => absurd hplaying hrest,
    fun hplaying => absurd hplaying hrest⟩

theorem rewound (h : p.InSong now) : p.rewound.InSong now :=
  of_start nofun rfl h.duration_nonneg

theorem tick (h : p.InSong now) : (p.tick now).player.InSong now := by
  obtain ⟨cursor, hplayer | hplayer⟩ := player_tick p now
  · rw [hplayer]
    exact ⟨h.duration_nonneg, h.held_nonneg, h.held_le, h.start_nonneg, h.start_le⟩
  · have hcursor : InSong { p with cursor } now :=
      ⟨h.duration_nonneg, h.held_nonneg, h.held_le, h.start_nonneg, h.start_le⟩
    rw [hplayer]
    exact hcursor.rewound

theorem setSound (h : p.InSong now) (track : String) (change : SoundChange Rat) :
    (p.setSound track change).player.InSong now := by
  obtain ⟨sounds, hplayer⟩ := player_setSound p track change
  rw [hplayer]
  exact ⟨h.duration_nonneg, h.held_nonneg, h.held_le, h.start_nonneg, h.start_le⟩

theorem play (h : p.InSong now) : (p.play now).player.InSong now := by
  unfold Player.play
  split
  · exact h
  · -- playing starts where the playhead was held, and now
    refine InSong.tick ?_
    exact ⟨h.duration_nonneg, h.held_nonneg, h.held_le, fun _ => h.held_nonneg, fun _ => le_rfl⟩

theorem pause (h : p.InSong now) : (p.pause now).player.InSong now := by
  unfold Player.pause
  split
  · exact ⟨h.duration_nonneg, h.position_nonneg, h.position_le, nofun, nofun⟩
  · exact h

theorem seek (h : p.InSong now) (seconds : Rat) : (p.seek now seconds).player.InSong now := by
  have hplace : 0 ≤ max 0 (min seconds p.duration) := le_max_left _ _
  have hlast : max 0 (min seconds p.duration) ≤ p.duration :=
    max_le h.duration_nonneg (min_le_right _ _)
  unfold Player.seek
  rw [Scalar.max_rat, Scalar.min_rat, Scalar.numeral_rat, Nat.cast_zero]
  dsimp only
  split
  · refine InSong.tick ?_
    exact ⟨h.duration_nonneg, h.held_nonneg, h.held_le, fun _ => hplace, fun _ => le_rfl⟩
  · next hrest =>
    exact ⟨h.duration_nonneg, hplace, hlast, fun hplaying => absurd hplaying hrest,
      fun hplaying => absurd hplaying hrest⟩

theorem load {timeline : Timeline Rat} (hduration : 0 ≤ timeline.durationSeconds)
    (changes : List (String × SoundChange Rat)) : (p.load timeline changes).player.InSong now :=
  of_start nofun rfl hduration

theorem take (h : p.InSong now) {turn : Turn Rat} (hturn : turn.Lasting) :
    (p.take now turn).player.InSong now := by
  cases turn with
  | tick => exact h.tick
  | play => exact h.play
  | pause => exact h.pause
  | stop => exact h.rewound
  | seek seconds => exact h.seek seconds
  | load timeline changes => exact InSong.load hturn changes
  | dispose => exact h.rewound
  | setVolume track volume => exact h.setSound track _
  | setSound track change => exact h.setSound track change

end InSong

theorem Alive.inSong (h : p.Alive now) : p.InSong now := by
  induction h with
  | made lookahead period timeline changes now hduration =>
    exact InSong.of_start nofun rfl hduration
  | wait _ hlater ih => exact ih.wait hlater
  | take turn _ hturn ih => exact ih.take hturn

/-! ## Forward, or not at all -/

theorem position_of_playing (hplaying : p.mode = .playing) :
    p.position now = min (p.reached now) p.duration := by
  rw [position, if_pos hplaying, Scalar.min_rat]

theorem position_of_resting (hrest : p.mode ≠ .playing) : p.position now = p.heldPosition :=
  if_neg hrest

/-- While playing goes on, the clock moves the playhead forward. -/
theorem position_mono (hplaying : p.mode = .playing) (hlater : now ≤ later) :
    p.position now ≤ p.position later := by
  rw [position_of_playing hplaying, position_of_playing hplaying]
  refine min_le_min_right _ ?_
  unfold reached
  linarith

/-- A turn that keeps the player playing leaves the playhead where it is, unless it moves it. -/
theorem position_take_of_playing (hplaying : p.mode = .playing) {turn : Turn Rat}
    (hseek : turn.isSeek = false) (hstill : (p.take now turn).player.mode = .playing) :
    (p.take now turn).player.position now = p.position now := by
  cases turn with
  | tick =>
    obtain ⟨cursor, hplayer | hplayer⟩ := player_tick p now
    · change (p.tick now).player.position now = _
      rw [hplayer]
      rfl
    · change (p.tick now).player.mode = .playing at hstill
      rw [hplayer] at hstill
      cases hstill
  | play =>
    change (p.play now).player.position now = _
    rw [play, if_pos hplaying]
  | pause =>
    change (p.pause now).player.mode = .playing at hstill
    rw [pause, if_pos hplaying] at hstill
    cases hstill
  | stop => cases hstill
  | seek seconds => cases hseek
  | load timeline changes => cases hstill
  | dispose => cases hstill
  | setVolume track volume =>
    obtain ⟨sounds, hplayer⟩ := player_setSound p track { volume := some _ }
    exact (congrArg (fun q => position q now) hplayer).trans rfl
  | setSound track change =>
    obtain ⟨sounds, hplayer⟩ := player_setSound p track change
    exact (congrArg (fun q => position q now) hplayer).trans rfl

/-- At rest, a turn that is not there to move the playhead leaves it where it is. -/
theorem heldPosition_take_of_resting (hrest : p.mode ≠ .playing) {turn : Turn Rat}
    (hmoves : turn.moves = false) : (p.take now turn).player.heldPosition = p.heldPosition := by
  cases turn with
  | tick =>
    change (p.tick now).player.heldPosition = _
    rw [tick, if_neg hrest]
  | pause =>
    change (p.pause now).player.heldPosition = _
    rw [pause, if_neg hrest]
  | setVolume track volume =>
    obtain ⟨sounds, hplayer⟩ := player_setSound p track { volume := some _ }
    exact (congrArg heldPosition hplayer).trans rfl
  | setSound track change =>
    obtain ⟨sounds, hplayer⟩ := player_setSound p track change
    exact (congrArg heldPosition hplayer).trans rfl
  | play | stop | seek _ | load _ _ | dispose => cases hmoves

/-- Pausing leaves the playhead where it is. -/
theorem position_pause (p : Player Rat) (now : Rat) :
    (p.pause now).player.position now = p.position now := by
  unfold pause
  split
  · exact position_of_resting nofun
  · rfl

/-! ## Stretches -/

/-- As long as playing goes on and the playhead is not moved, it goes forward. -/
theorem Passes.position_mono {q : Player Rat}
    (h : p.Passes (·.mode = .playing) (·.isSeek = false) now q later)
    (hplaying : p.mode = .playing) :
    q.mode = .playing ∧ p.position now ≤ q.position later := by
  induction h with
  | here => exact ⟨hplaying, le_rfl⟩
  | wait _ hlater ih => exact ⟨ih.1, ih.2.trans (Player.position_mono ih.1 hlater)⟩
  | take turn _ hseek hstill ih =>
    exact ⟨hstill, ih.2.trans (position_take_of_playing ih.1 hseek hstill).ge⟩

/-- As long as the player rests and nothing moves the playhead, it stays. -/
theorem Passes.position_eq {q : Player Rat}
    (h : p.Passes (·.mode ≠ .playing) (·.moves = false) now q later)
    (hrest : p.mode ≠ .playing) :
    q.mode ≠ .playing ∧ q.position later = p.position now := by
  induction h with
  | here => exact ⟨hrest, rfl⟩
  | wait _ _ ih =>
    rw [position_of_resting ih.1] at ih
    rw [position_of_resting ih.1]
    exact ih
  | take turn _ hmoves hstill ih =>
    -- on both sides of the turn, the playhead is where it is held
    rw [position_of_resting ih.1, ← heldPosition_take_of_resting ih.1 hmoves] at ih
    rw [position_of_resting hstill]
    exact ⟨hstill, ih.2⟩

end Player

/-- **The playhead stays in the song.** Whatever a player of songs that last no less than no time
was asked, while the clock did not go back, its playhead stands between the start and the end of the
song. While playing goes on and the playhead is not moved, it goes forward only; at rest nothing
moves it but playing, stopping, seeking, loading and disposing; and pausing leaves it where it
is. -/
theorem playhead_in_song {p : Player Rat} {now : Rat} (h : p.Alive now) :
    (0 ≤ p.position now ∧ p.position now ≤ p.duration) ∧
      (p.mode = .playing → ∀ q later,
        p.Passes (·.mode = .playing) (·.isSeek = false) now q later →
          p.position now ≤ q.position later) ∧
      (p.mode ≠ .playing → ∀ q later,
        p.Passes (·.mode ≠ .playing) (·.moves = false) now q later →
          q.position later = p.position now) ∧
      (p.pause now).player.position now = p.position now :=
  ⟨⟨h.inSong.position_nonneg, h.inSong.position_le⟩,
    fun hplaying _ _ hpasses => (hpasses.position_mono hplaying).2,
    fun hrest _ _ hpasses => (hpasses.position_eq hrest).2, p.position_pause now⟩

/-- A song of two seconds is played for one second, paused and left alone. -/
theorem playhead_in_song_oneNote :
    let start : Player Rat := Player.ofTimeline (1 / 10) 25 oneNote []
    let playing := (start.take 7 .play).player
    let paused := (playing.take 8 .pause).player
    playing.position 8 = 1 ∧ paused.position 8 = 1 ∧ paused.position 100 = 1 ∧
      playing.position 8 ≤ playing.position 20 ∧ playing.position 20 ≤ playing.duration := by
  intro start playing paused
  have hplaying : playing.Alive 7 := .take .play (.made _ _ _ _ _ (by decide +kernel)) trivial
  have hlater : playing.Alive 8 := .wait hplaying (by decide +kernel)
  have hpaused : paused.Alive 8 := .take .pause hlater trivial
  obtain ⟨-, hforward, -, hpause⟩ := playhead_in_song hlater
  obtain ⟨-, -, hstays, -⟩ := playhead_in_song hpaused
  obtain ⟨⟨-, hlast⟩, -⟩ := playhead_in_song (.wait hlater (by decide +kernel) : playing.Alive 20)
  have hone : playing.position 8 = 1 := by decide +kernel
  refine ⟨hone, hpause.trans hone, ?_, ?_, hlast⟩
  · exact (hstays (by decide +kernel) paused 100 (.wait .here (by decide +kernel))).trans
      (hpause.trans hone)
  · exact hforward (by decide +kernel) playing 20 (.wait .here (by decide +kernel))

end LeadSheet.Playback
