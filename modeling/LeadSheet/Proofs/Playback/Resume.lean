import LeadSheet.Proofs.Playback.Playhead
import LeadSheet.Proofs.Timeline.Spans

/-!
# Where playing goes on after a pause

Pausing keeps the playhead, and playing again starts from there. What is kept is the playhead as it
is shown, which does not go beyond the end of the song, whereas a song with events behind its end is
played on there. So resuming goes on where playing stood as long as that is in the song; behind its
end it falls back to the end, and the events between are handed over once more (`resumed`).
-/

namespace LeadSheet.Playback

variable {p : Player Rat} {now : Rat}

namespace Player

theorem mode_pause (hplaying : p.mode = .playing) : (p.pause now).player.mode ≠ .playing := by
  rw [pause, if_pos hplaying]
  simp

/-- What is kept in a pause is the playhead as it is shown. -/
theorem heldPosition_pause (hplaying : p.mode = .playing) :
    (p.pause now).player.heldPosition = min (p.reached now) p.duration := by
  rw [pause, if_pos hplaying]
  exact position_of_playing hplaying

theorem timeline_pause : (p.pause now).player.timeline = p.timeline := by
  unfold pause
  split <;> rfl

theorem lookahead_pause : (p.pause now).player.lookahead = p.lookahead := by
  unfold pause
  split <;> rfl

/-- Where the start of playing is not the end of it at once, the place in the song follows from
where the playhead was held. -/
theorem reached_play (hrest : p.mode ≠ .playing)
    (hplaying : (p.play now).player.mode = .playing) (later : Rat) :
    (p.play now).player.reached later = p.heldPosition + (later - now) := by
  rw [play, if_neg hrest] at hplaying ⊢
  obtain ⟨cursor, hplayer | hplayer⟩ :=
    player_tick { p.startAt now p.heldPosition with mode := .playing } now
  · exact (congrArg (fun q => reached q later) hplayer).trans rfl
  · -- a player that came to the end of the song is not playing
    have hstopped : Mode.playing = Mode.stopped := hplaying.symm.trans (congrArg mode hplayer)
    cases hstopped

/-- The stretch of playing that a pause and a resumption at one time start. -/
theorem starts_resumed (hplaying : p.mode = .playing) :
    (p.pause now).player.Starts now (min (p.reached now) p.duration)
      ((p.pause now).player.play now) := by
  rw [← heldPosition_pause hplaying]
  exact .play (mode_pause hplaying)

/-- What a round of a resumed stretch hands over. -/
theorem handedOver_resumed {times : List Rat} (hplaying : p.mode = .playing)
    (hsorted : p.timeline.events.Pairwise (·.seconds ≤ ·.seconds))
    (htimes : (now :: times).Pairwise (· ≤ ·)) :
    let g : Segment := ⟨now, min (p.reached now) p.duration, p.lookahead⟩
    let reply := (p.pause now).player.play now
    handedOver now reply.commands ++ reply.player.rounds times
      = ((p.timeline.events.filter fun e => decide (g.position ≤ e.seconds)).filter
          (g.reaches (times.getLastD now))).filterMap (g.handOver? (now :: times)) := by
  intro g reply
  have hstarts : (p.pause now).player.Starts now (min (p.reached now) p.duration) reply :=
    starts_resumed hplaying
  obtain ⟨q, hruns, hcommands, hplayer⟩ := hstarts.runs
  rw [timeline_pause, lookahead_pause] at hruns
  have hrounds := hruns.rounds_eq (hsorted.sublist (List.drop_sublist _ _)) htimes
  rwa [rounds, ← hcommands, ← hplayer, drop_cursorAt _ hsorted] at hrounds

end Player

/-- The first round hands over what lies ahead of it as far as it looks, for its time. -/
theorem Segment.handOver?_start {g : Segment} {times : List Rat} {e : TimedEvent Rat}
    (hahead : g.position ≤ e.seconds) (hnear : e.seconds ≤ g.position + g.lookahead) :
    g.handOver? (g.start :: times) e = some ⟨g.start, e, g.timeOf e⟩ := by
  have hreaches : g.reaches g.start e = true := by
    unfold reaches horizon
    rwa [decide_eq_true_eq, sub_self, add_zero]
  have hsoon : g.start ≤ g.timeOf e := by
    unfold timeOf
    linarith
  rw [handOver?_of_reaches hreaches, handOverAt, max_eq_left hsoon,
    if_neg fun hlate => by linarith [hlate.2]]

/-- **Playing goes on where the playhead stood.** A player that plays is paused and played again at
once. From then on song and clock are apart by what playing had gone beyond the end of the song:
nothing if it had not come there. What is handed over does not lie before the playhead, and sounds
later by just that. Beyond the end of the song, though, the playhead does not go along, so that what
lies there is handed over again. -/
theorem resumed {p : Player Rat} {now : Rat} {times : List Rat} (hplaying : p.mode = .playing)
    (hsorted : p.timeline.events.Pairwise (·.seconds ≤ ·.seconds))
    (htimes : (now :: times).Pairwise (· ≤ ·)) :
    let place := min (p.reached now) p.duration
    let lost := p.reached now - place
    let reply := (p.pause now).player.play now
    let handed := handedOver now reply.commands ++ reply.player.rounds times
    (reply.player.mode = .playing → ∀ later,
        reply.player.reached later = p.reached later - lost) ∧
      (∀ h ∈ handed, h.event ∈ p.timeline.events ∧ place ≤ h.event.seconds ∧
        h.time = max (p.timeOf h.event + lost) h.given) ∧
      (∀ e ∈ p.timeline.events, place ≤ e.seconds → e.seconds ≤ place + p.lookahead →
        ⟨now, e, p.timeOf e + lost⟩ ∈ handed) ∧
      (lost = 0 ↔ p.reached now ≤ p.duration) := by
  intro place lost reply handed
  have hhanded := Player.handedOver_resumed hplaying hsorted htimes
  have htime : ∀ e : TimedEvent Rat,
      (⟨now, place, p.lookahead⟩ : Segment).timeOf e = p.timeOf e + lost := fun e => by
    unfold Segment.timeOf Player.timeOf lost Player.reached
    ring
  refine ⟨fun hstill later => ?_, fun h hmem => ?_, fun e he hplace hnear => ?_, ?_⟩
  · rw [Player.reached_play (Player.mode_pause hplaying) hstill, Player.heldPosition_pause hplaying]
    unfold lost place Player.reached
    ring
  · rw [show handed = _ from hhanded] at hmem
    obtain ⟨e, he, hsome⟩ := List.mem_filterMap.mp hmem
    have hbehind := List.mem_filter.mp (List.mem_filter.mp he).1
    obtain ⟨-, rfl, hsounds⟩ := Segment.handOver?_eq_some hsome
    refine ⟨hbehind.1, of_decide_eq_true hbehind.2, ?_⟩
    rw [hsounds, htime]
  · -- the first round comes upon it, and so the last one looks as far
    have hfirst : (⟨now, place, p.lookahead⟩ : Segment).handOver? (now :: times) e
        = some ⟨now, e, p.timeOf e + lost⟩ := by
      rw [← htime]
      exact Segment.handOver?_start hplace hnear
    have hreached : e.seconds ≤ place + (times.getLastD now - now) + p.lookahead := by
      have := Segment.le_getLastD htimes
      linarith
    rw [show handed = _ from hhanded]
    refine List.mem_filterMap.mpr ⟨e, ?_, hfirst⟩
    exact List.mem_filter.mpr
      ⟨List.mem_filter.mpr ⟨he, decide_eq_true hplace⟩, decide_eq_true hreached⟩
  · unfold lost place
    rw [sub_eq_zero, eq_comm, min_eq_left_iff]

/-- A bar of four seconds with a stroke at its end and one five seconds later. -/
def overrun : Score Rat where
  title := "Overrun"
  tempo := 60
  key := "C"
  timeSignature := "4/4"
  sections :=
    [{ name := "A", bars := 1, startBar := 0, key := none, tempo := none, tracks := []
       drums := some ⟨"Drums", [⟨"kick", 4, 1⟩, ⟨"kick", 9, 1⟩], 1⟩ }]

/-- A player of the bar and what overruns it, at the start and in the midst of playing. -/
def overrunning : Player Rat :=
  ((Player.ofTimeline (1 / 10) 25 (Timeline.ofScore Vocabulary.standard overrun) []).play 0).player

/-- In the bar, playing goes on as if there had been no pause. -/
theorem resumed_overrun :
    let reply := (overrunning.pause 3).player.play 3
    reply.player.reached 5 = 5 ∧
      ∀ h ∈ handedOver 3 reply.commands ++ reply.player.rounds [4, 5], 3 ≤ h.event.seconds := by
  intro reply
  have hplaying : overrunning.mode = .playing := by decide +kernel
  have htimes : [3, 4, 5].Pairwise (fun earlier later : Rat => earlier ≤ later) := by
    decide +kernel
  obtain ⟨hreached, hhanded, -, -⟩ := resumed hplaying (by decide +kernel) htimes
  refine ⟨(hreached (by decide +kernel) 5).trans (by decide +kernel), fun h hmem => ?_⟩
  exact (by decide +kernel : (3 : Rat) = min (overrunning.reached 3) overrunning.duration).le.trans
    (hhanded h hmem).2.1

/-- **Behind the end of the song, a pause takes playing back.** The stroke at the end of the bar was
handed over in its time, and three seconds later playing stood at seven seconds. Behind the pause it
stands at four seconds, and the stroke is handed over once more. -/
theorem struck_again_behind_end :
    let stroke : TimedEvent Rat := ⟨.noteOn, 4, drumChannel, 36, 127, "Drums"⟩
    let playing := ((overrunning.tick 4).player.tick 7).player
    let reply := (playing.pause 7).player.play 7
    playing.Alive 7 ∧ playing.mode = .playing ∧
      ⟨4, stroke, 4⟩ ∈ handedOver 4 (overrunning.tick 4).commands ∧ playing.reached 7 = 7 ∧
      reply.player.mode = .playing ∧ reply.player.reached 7 = 4 ∧
      ⟨7, stroke, 7⟩ ∈ handedOver 7 reply.commands := by
  have hstart : overrunning.Alive 0 :=
    .take .play (.made (1 / 10) 25 _ [] 0 (by decide +kernel)) trivial
  have hbar : (overrunning.tick 4).player.Alive 4 :=
    .take .tick (.wait hstart (by decide +kernel)) trivial
  refine ⟨.take .tick (.wait hbar (by decide +kernel)) trivial, ?_⟩
  decide +kernel

end LeadSheet.Playback
