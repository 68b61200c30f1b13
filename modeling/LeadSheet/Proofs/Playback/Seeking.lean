import LeadSheet.Proofs.Playback.Pace

/-!
# Seeking is pausing and resuming elsewhere

While playing, the playhead can be moved at once, or by pausing, moving it at rest and playing
again. Both come to the same (`seek_like_resume`): the synthesizer hears the same orders in the same
order, the listener is told as often, and the players cannot be told apart by anything that is asked
of them later. The timer of the loop is another one, of the same period.

One field of the players may differ: where the playhead is held. But nothing reads it while playing,
and whatever ends playing sets it. So players that differ in no more answer alike to every turn, and
stay that way (`Player.Like.take`).
-/

namespace LeadSheet.Playback

variable {α : Type}

/-! ## Players that answer alike -/

/-- The same player, but for the place where the playhead is held, if both play. -/
inductive Player.Like (p : Player α) : Player α → Prop where
  | same : p.Like p
  | playing (held : α) : p.mode = .playing → p.Like { p with heldPosition := held }

/-- Replies of players that answer alike. -/
structure Reply.Like (r r' : Reply α) : Prop where
  player : r.player.Like r'.player
  commands : r'.commands = r.commands
  ended : r'.ended = r.ended

theorem Reply.Like.refl (r : Reply α) : r.Like r := ⟨.same, rfl, rfl⟩

theorem Reply.Like.after {r r' : Reply α} (h : r.Like r') (commands : List (Command α)) :
    (r.after commands).Like (r'.after commands) :=
  ⟨h.player, congrArg (commands ++ ·) h.commands, h.ended⟩

namespace Player

variable {p q : Player α}

theorem Like.mode_eq (h : p.Like q) : q.mode = p.mode := by
  cases h <;> rfl

theorem Like.cursor_eq (h : p.Like q) : q.cursor = p.cursor := by
  cases h <;> rfl

theorem Like.sounds_eq (h : p.Like q) : q.sounds = p.sounds := by
  cases h <;> rfl

theorem Like.period_eq (h : p.Like q) : q.period = p.period := by
  cases h <;> rfl

theorem Like.setSound (h : p.Like q) (track : String) (change : SoundChange α) :
    (p.setSound track change).Like (q.setSound track change) := by
  cases h with
  | same => exact .refl _
  | playing held hplaying =>
    unfold Player.setSound
    dsimp only
    split
    · exact ⟨.playing held hplaying, rfl, rfl⟩
    · exact ⟨.playing held hplaying, rfl, rfl⟩

variable [Scalar α]

theorem Like.position_eq (h : p.Like q) (now : α) : q.position now = p.position now := by
  cases h with
  | same => rfl
  | playing held hplaying =>
    unfold position
    rw [if_pos hplaying, if_pos hplaying]
    rfl

/-- A round does not look at where the playhead is held, and at the end of the song it is held at
the start. -/
theorem Like.tick (h : p.Like q) (now : α) : (p.tick now).Like (q.tick now) := by
  cases h with
  | same => exact .refl _
  | playing held hplaying =>
    unfold Player.tick
    rw [if_pos hplaying, if_pos hplaying]
    let ends : Bool := isOver { p with cursor := p.cursor + (p.upcoming now).length } now
    change Reply.Like (if ends then _ else _) (if ends then _ else _)
    split
    · exact .refl _
    · exact ⟨.playing held hplaying, rfl, rfl⟩

/-- The place in the song that seeking goes to. -/
def placeAt (p : Player α) (seconds : α) : α := Scalar.max 0 (Scalar.min seconds p.duration)

/-- **Players that differ in a place that nothing reads answer alike**, and go on like that. -/
theorem Like.take (h : p.Like q) (now : α) (turn : Turn α) :
    (p.take now turn).Like (q.take now turn) := by
  cases h with
  | same => exact .refl _
  | playing held hplaying =>
    have hlike : p.Like { p with heldPosition := held } := .playing held hplaying
    cases turn with
    | tick => exact hlike.tick now
    | setVolume track volume => exact hlike.setSound track _
    | setSound track change => exact hlike.setSound track change
    | stop | load timeline changes | dispose => exact .refl _
    | play =>
      change (p.play now).Like (Player.play _ now)
      rw [Player.play, Player.play, if_pos hplaying, if_pos hplaying]
      exact ⟨hlike, rfl, rfl⟩
    | pause =>
      -- the playhead is held where it has come to
      change (p.pause now).Like (Player.pause _ now)
      rw [Player.pause, Player.pause, if_pos hplaying, if_pos hplaying, hlike.position_eq]
      exact .refl _
    | seek seconds =>
      change (p.seek now seconds).Like (Player.seek _ now seconds)
      rw [Player.seek, Player.seek, if_pos hplaying, if_pos hplaying]
      have hthere : (p.startAt now (p.placeAt seconds)).Like
        { p.startAt now (p.placeAt seconds) with heldPosition := held } := .playing held hplaying
      exact (hthere.tick now).after _

/-- What a player answers to turns, one after the other, each at a reading of the clock. -/
def answers (p : Player α) : List (α × Turn α) → List (List (Command α) × Bool)
  | [] => []
  | (now, turn) :: rest =>
    let reply := p.take now turn
    (reply.commands, reply.ended) :: reply.player.answers rest

theorem Like.answers_eq (h : p.Like q) (turns : List (α × Turn α)) :
    q.answers turns = p.answers turns := by
  induction turns generalizing p q with
  | nil => rfl
  | cons turn rest ih =>
    have htaken := h.take turn.1 turn.2
    unfold answers
    dsimp only
    rw [htaken.commands, htaken.ended, ih htaken.player]

end Player

namespace Stage

/-! ## Stages that look alike -/

/-- Stages that cannot be told apart, unless by the timer of the loop. -/
structure Alike (s s' : Stage (Observer α) α) : Prop where
  player : s.player.Like s'.player
  seen : s'.seen = s.seen

namespace Alike

variable {s s' : Stage (Observer α) α}

theorem noteEnd (h : s.Alike s') : s.noteEnd.Alike s'.noteEnd where
  player := h.player
  seen := congrArg (fun seen : Seen α => { seen with calls := seen.calls ++ [Call.ended] })
    h.seen

theorem listen (h : s.Alike s') (listener : Listener) :
    Alike { s with listener } { s' with listener } where
  player := h.player
  seen := congrArg (fun seen : Seen α => { seen with listener }) h.seen

theorem say (h : s.Alike s') (level : Level) (text : String) :
    Alike { s with host := s.host.say level text } { s' with host := s'.host.say level text } where
  player := h.player
  seen := congrArg (fun seen : Seen α =>
    { seen with notices := seen.notices ++ [Notice.mk level text] }) h.seen

theorem time_eq (h : s.Alike s') : s'.time = s.time := by
  rw [time_eq_seen, time_eq_seen, h.seen]

variable [Scalar α]

theorem carryOut (hseen : s'.seen = s.seen) {r r' : Reply α} (hreply : r.Like r') :
    (s.carryOut r).Alike (s'.carryOut r') where
  player := hreply.player
  seen := by rw [seen_carryOut, seen_carryOut, hseen, hreply.commands]

theorem replay : ∀ (times : Nat) {s s' : Stage (Observer α) α}, s.Alike s' →
    (Stage.replay times s).Alike (Stage.replay times s')
  | 0, _, _, h => h.listen _
  | times + 1, s, s', h => by
    have hreply : (s.player.play s.time).Like (s'.player.play s'.time) := by
      rw [h.time_eq]
      exact h.player.take s.time .play
    have hplayed := (carryOut h.seen hreply).listen (.replaying times)
    unfold Stage.replay
    dsimp only
    rw [hreply.ended]
    split
    · exact replay times hplayed.noteEnd
    · exact hplayed

theorem notify (h : s.Alike s') : s.notify.Alike s'.notify := by
  have hlistener : s'.listener = s.listener := congrArg Seen.listener h.seen
  unfold Stage.notify
  rw [hlistener]
  cases s.listener with
  | absent => exact h
  | silent => exact h.noteEnd
  | failing fault => exact h.noteEnd.say .error _
  | replaying times => exact h.noteEnd.replay times

/-- Stages that look alike do so when like replies were settled, whatever the players were. -/
theorem settle (hseen : s'.seen = s.seen) {r r' : Reply α} (hreply : r.Like r') :
    (s.settle r).Alike (s'.settle r') := by
  have hcarried := carryOut hseen hreply
  unfold Stage.settle
  rw [hreply.ended]
  split
  · exact hcarried.notify
  · exact hcarried

end Alike

/-! ## Two ways to go on elsewhere -/

section

variable [Scalar α] {s : Stage (Observer α) α}

/-- While playing, seeking silences the synthesizer and goes on with a round. -/
theorem act_seek_of_playing (hplaying : s.player.mode = .playing) (seconds : α) :
    s.act (.seek seconds) = (s.perform (.order .cancelAll)).settle
      ((s.player.startAt s.time (s.player.placeAt seconds)).tick s.time) := by
  change s.settle (s.player.seek s.time seconds) = _
  rw [Player.seek, if_pos hplaying, settle_after]
  rfl

/-- Pausing silences the synthesizer, and then seeking only moves the place where the playhead is
held. -/
theorem seek_behind_pause (hplaying : s.player.mode = .playing) (seconds : α) :
    let rest := (s.act .pause).act (.seek seconds)
    rest.seen = s.seen.hear [.cancelAll] ∧
      rest.player = { s.player with
        heldPosition := s.player.placeAt seconds
        mode := .paused } := by
  have hpause : s.act .pause = s.carryOut
      ⟨{ s.player with heldPosition := s.player.position s.time, mode := .paused },
        [.stopLoop, .order .cancelAll], false⟩ := by
    change s.settle (s.player.pause s.time) = _
    rw [Player.pause, if_pos hplaying]
    rfl
  rw [hpause]
  exact ⟨seen_carryOut s _, rfl⟩

/-- **Moving the playhead while playing is pausing, moving it, and playing again.** -/
theorem alike_resumed (hplaying : s.player.mode = .playing) (seconds : α) :
    (s.act (.seek seconds)).Alike (((s.act .pause).act (.seek seconds)).act .play) := by
  obtain ⟨hseen, hplayer⟩ := seek_behind_pause hplaying seconds
  rw [act_seek_of_playing hplaying]
  generalize (s.act .pause).act (.seek seconds) = rest at hseen hplayer
  have htime : rest.time = s.time := by
    rw [time_eq_seen, hseen]
    rfl
  have hplay : rest.act .play = (rest.startLoop rest.player.period).settle
      (Player.tick { rest.player.startAt rest.time rest.player.heldPosition with mode := .playing }
        rest.time) := by
    change rest.settle (rest.player.play rest.time) = _
    rw [Player.play, if_neg (by simp [hplayer]), if_neg (by simp [hplayer]), settle_after]
    rfl
  rw [hplay, htime]
  refine Alike.settle ?_ ?_
  · -- what was heard is the same, and the loop is not heard
    exact hseen.trans (seen_foldl_perform [.order .cancelAll] s).symm
  · refine Player.Like.tick ?_ s.time
    rw [hplayer]
    dsimp only [Player.startAt]
    rw [← hplaying]
    exact .playing _ hplaying

end

end Stage

/-- **Seeking while playing is pausing, seeking and playing again.** A player with an observer, of
any clock and with any listener, plays after any incidents. Whether the playhead is moved at once or
at rest, at one reading of the clock, the calls are the same and in the same order, to the
synthesizer as well as to the listener; the players do the same at the same place of the same song
with the same sounds, and answer the same whatever comes; and nothing else that there is to see
tells one from the other. Each has its loop, of the same period. -/
theorem seek_like_resume [Scalar α] (shows : α → α) (now lookahead period : α)
    (timeline : Timeline α) (changes : List (String × SoundChange α)) (listener : Listener)
    (incidents : List (Incident α)) (seconds : α) :
    let s := incidents.foldl Stage.undergo
      (Stage.observed shows now lookahead period timeline changes listener)
    let sought := s.act (.seek seconds)
    let resumed := ((s.act .pause).act (.seek seconds)).act .play
    s.player.mode = .playing →
      resumed.host.calls = sought.host.calls ∧
        resumed.player.mode = sought.player.mode ∧
        (∀ time, resumed.player.position time = sought.player.position time) ∧
        resumed.player.cursor = sought.player.cursor ∧
        resumed.player.sounds = sought.player.sounds ∧
        (∀ turns, resumed.player.answers turns = sought.player.answers turns) ∧
        resumed.seen = sought.seen ∧
        resumed.player.period = sought.player.period ∧ sought.Looping ∧ resumed.Looping := by
  intro s sought resumed hplaying
  have halike : sought.Alike resumed := Stage.alike_resumed hplaying seconds
  have hlooping (more : List (Incident α)) : (more.foldl Stage.undergo s).Looping := by
    rw [← List.foldl_append]
    exact Stage.looping_of_incidents shows now lookahead period timeline changes listener _
  exact ⟨congrArg Seen.calls halike.seen, halike.player.mode_eq, halike.player.position_eq,
    halike.player.cursor_eq, halike.player.sounds_eq, halike.player.answers_eq, halike.seen,
    halike.player.period_eq, hlooping [.act (.seek seconds)],
    hlooping [.act .pause, .act (.seek seconds), .act .play]⟩

/-- A song of two seconds is moved back from one second to half a second, and behind its end. -/
theorem seek_like_resume_oneNote :
    let s := [Incident.act .play, .act (.jump 1000)].foldl Stage.undergo
      (Stage.observed (· / 1000) 0 (1 / 10) 25 oneNote [] .silent)
    let again (seconds : Rat) := ((s.act .pause).act (.seek seconds)).act .play
    s.player.mode = .playing ∧
      (again (1 / 2)).host.calls = (s.act (.seek (1 / 2))).host.calls ∧
      (again (1 / 2)).player.position 2 = 3 / 2 ∧
      (again 5).host.calls = (s.act (.seek 5)).host.calls ∧ endings (again 5).host.calls = 1 := by
  intro s again
  have hplaying : s.player.mode = .playing := by decide +kernel
  have hplace : (s.act (.seek (1 / 2))).player.position 2 = 3 / 2 := by decide +kernel
  have hended : endings (s.act (.seek 5)).host.calls = 1 := by decide +kernel
  obtain ⟨hback, -, hposition, -⟩ := seek_like_resume (· / 1000) 0 (1 / 10) 25 oneNote [] .silent
    [Incident.act .play, .act (.jump 1000)] (1 / 2) hplaying
  obtain ⟨hover, -⟩ := seek_like_resume (· / 1000) 0 (1 / 10) 25 oneNote [] .silent
    [Incident.act .play, .act (.jump 1000)] 5 hplaying
  refine ⟨hplaying, hback, (hposition 2).trans hplace, hover, ?_⟩
  exact (congrArg endings hover).trans hended

end LeadSheet.Playback
