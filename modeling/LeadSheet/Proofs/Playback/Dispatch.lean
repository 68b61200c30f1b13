import LeadSheet.Playback.Player
import LeadSheet.Proofs.Number.Exact
import LeadSheet.Proofs.Sorting.Search

/-!
# What a player hands over

A stretch of playing begins where `play`, or a `seek` while playing, puts the playhead at a time of
the synthesizer's clock. After that only the rounds of the loop matter, and they come when they
come. In exact arithmetic it makes no difference how many there are: the events that are handed over
are those between the playhead and the last horizon, each of them once and in order, and a round
that comes late can do no more than let the start of a note drop out (`handedOver_segment`).

The invariant is that what stands behind the cursor is what no horizon has reached. Where the song
ends, nothing stands there any more, so that it needs no case of its own.
-/

namespace LeadSheet.Playback

/-! ## Handing over -/

/-- An event that was handed over. -/
structure HandOver where
  /-- The time of the round. -/
  given : Rat
  event : TimedEvent Rat
  /-- The time at which it is to sound. -/
  time : Rat
  deriving DecidableEq, Repr

/-- The events that commands hand over in a round. -/
def handedOver (now : Rat) (commands : List (Command Rat)) : List HandOver :=
  commands.filterMap fun
    | .order (.schedule event time) => some ⟨now, event, time⟩
    | _ => none

/-- What rounds of the loop hand over. -/
def Player.rounds (p : Player Rat) : List Rat → List HandOver
  | [] => []
  | now :: rest => handedOver now (p.tick now).commands ++ (p.tick now).player.rounds rest

/-- The operations that start a stretch of playing, with the playhead's place and the answer. -/
inductive Player.Starts (p : Player Rat) (now : Rat) : Rat → Reply Rat → Prop where
  | play : p.mode ≠ .playing → p.Starts now p.heldPosition (p.play now)
  | seek (seconds : Rat) : p.mode = .playing →
      p.Starts now (max 0 (min seconds p.duration)) (p.seek now seconds)

/-! ## A stretch of playing -/

/-- A stretch of playing. -/
structure Segment where
  /-- The time at which it starts. -/
  start : Rat
  /-- The playhead at that time. -/
  position : Rat
  lookahead : Rat

namespace Segment

/-- How far a round looks. -/
def horizon (g : Segment) (now : Rat) : Rat := g.position + (now - g.start) + g.lookahead

/-- When an event is to sound. -/
def timeOf (g : Segment) (e : TimedEvent Rat) : Rat := g.start + e.seconds - g.position

/-- What a round makes of an event that it comes upon: the start of a note that is too late is left
out, and nothing is to sound in the past. -/
def handOverAt (g : Segment) (now : Rat) (e : TimedEvent Rat) : Option HandOver :=
  if e.kind = .noteOn ∧ g.timeOf e < now - 1 / 20 then none
  else some ⟨now, e, max (g.timeOf e) now⟩

/-- What rounds make of an event: the first one that looks far enough comes upon it. -/
def handOver? (g : Segment) (times : List Rat) (e : TimedEvent Rat) : Option HandOver :=
  (times.find? fun now => e.seconds ≤ g.horizon now).bind fun now => g.handOverAt now e

theorem horizon_mono (g : Segment) {now later : Rat} (h : now ≤ later) :
    g.horizon now ≤ g.horizon later := by
  unfold horizon
  linarith

/-- A player within a stretch of playing, and what no round has come upon. -/
structure Runs (g : Segment) (p : Player Rat) (todo : List (TimedEvent Rat)) : Prop where
  mode_eq : p.mode = .playing
  start_eq : p.startTime = g.start
  position_eq : p.startPosition = g.position
  lookahead_eq : p.lookahead = g.lookahead
  todo_eq : p.timeline.events.drop p.cursor = todo

variable {g : Segment} {p : Player Rat} {todo : List (TimedEvent Rat)} {now : Rat}

/-- Whether an event lies within the horizon of a round. -/
def reaches (g : Segment) (now : Rat) (e : TimedEvent Rat) : Bool := e.seconds ≤ g.horizon now

theorem Runs.upcoming_eq (h : g.Runs p todo) :
    p.upcoming now = todo.takeWhile (g.reaches now) := by
  unfold Player.upcoming Player.reached
  rw [h.start_eq, h.position_eq, h.lookahead_eq, h.todo_eq]
  dsimp only
  congr 1
  funext e
  unfold reaches horizon
  rw [← decide_not, decide_eq_decide]
  exact not_lt

theorem handedOver_append (now : Rat) (commands more : List (Command Rat)) :
    handedOver now (commands ++ more) = handedOver now commands ++ handedOver now more :=
  List.filterMap_append ..

theorem Runs.handedOver_dispatch (h : g.Runs p todo) (events : List (TimedEvent Rat)) :
    handedOver now (events.filterMap (p.dispatch? now)) = events.filterMap (g.handOverAt now) := by
  unfold handedOver
  rw [List.filterMap_filterMap]
  congr 1
  funext e
  have htime : p.timeOf e = g.timeOf e := by
    unfold Player.timeOf timeOf
    rw [h.start_eq, h.position_eq]
    ring
  have hlate : (lateTolerance : Rat) = 1 / 20 := by
    unfold lateTolerance
    norm_num
  unfold Player.dispatch? handOverAt
  rw [htime, hlate]
  dsimp only
  rw [Scalar.max_rat]
  split
  · rfl
  · rfl

/-- One round hands over what lies within its horizon. What lies beyond stays to be done, and a
player that came to the end of the song has nothing to do. -/
theorem Runs.tick (h : g.Runs p todo) (now : Rat) :
    handedOver now (p.tick now).commands
        = (todo.takeWhile (g.reaches now)).filterMap (g.handOverAt now) ∧
      (g.Runs (p.tick now).player (todo.dropWhile (g.reaches now)) ∨
        (p.tick now).player.mode ≠ .playing ∧ todo.dropWhile (g.reaches now) = []) := by
  have htodo : p.timeline.events.drop (p.cursor + (p.upcoming now).length)
      = todo.dropWhile (g.reaches now) := by
    rw [← List.drop_drop, h.todo_eq, h.upcoming_eq, Sorting.drop_length_takeWhile]
  have hhanded : handedOver now ((p.upcoming now).filterMap (p.dispatch? now))
      = (p.upcoming now).filterMap (g.handOverAt now) := h.handedOver_dispatch _
  rw [← h.upcoming_eq, ← hhanded, Player.tick, if_pos h.mode_eq]
  dsimp only
  split
  · -- the song is over only when the cursor stands behind the last event
    rename_i hover
    refine ⟨?_, .inr ⟨by simp [Player.rewound], ?_⟩⟩
    · rw [handedOver_append]
      simp [handedOver]
    · unfold Player.isOver at hover
      rw [Bool.and_eq_true, decide_eq_true_eq] at hover
      rw [← htodo]
      exact List.drop_eq_nil_of_le hover.1
  · exact ⟨rfl, .inl ⟨h.mode_eq, h.start_eq, h.position_eq, h.lookahead_eq, htodo⟩⟩

end Segment

theorem Player.rounds_idle {p : Player Rat} (h : p.mode ≠ .playing) :
    ∀ times : List Rat, p.rounds times = []
  | [] => rfl
  | now :: rest => by
      rw [Player.rounds, Player.tick, if_neg h, Player.rounds_idle h rest]
      rfl

namespace Segment

variable {g : Segment} {p : Player Rat} {todo : List (TimedEvent Rat)} {now : Rat}

theorem handOver?_of_reaches {times : List Rat} {e : TimedEvent Rat} (h : g.reaches now e = true) :
    g.handOver? (now :: times) e = g.handOverAt now e := by
  unfold handOver?
  rw [List.find?_cons_of_pos (by exact h), Option.bind_some]

theorem handOver?_of_not_reaches {times : List Rat} {e : TimedEvent Rat}
    (h : ¬g.reaches now e = true) : g.handOver? (now :: times) e = g.handOver? times e := by
  unfold handOver?
  rw [List.find?_cons_of_neg (by exact h)]

/-- In order of time, a horizon cuts the events in two. -/
theorem reaches_cut (hsorted : todo.Pairwise (·.seconds ≤ ·.seconds)) :
    Sorting.Cut (g.reaches now) todo (todo.takeWhile (g.reaches now)).length :=
  Sorting.cut_takeWhile (hsorted.imp fun hab hb => by
    unfold reaches at hb ⊢
    rw [decide_eq_true_eq] at hb ⊢
    exact hab.trans hb)

/-- What lies within a horizon is handed over, what lies beyond is left to later rounds. -/
theorem filterMap_handOver? {times : List Rat} (hsorted : todo.Pairwise (·.seconds ≤ ·.seconds))
    {last : Rat} (hlast : now ≤ last) :
    (todo.filter (g.reaches last)).filterMap (g.handOver? (now :: times))
      = (todo.takeWhile (g.reaches now)).filterMap (g.handOverAt now)
        ++ ((todo.dropWhile (g.reaches now)).filter (g.reaches last)).filterMap
          (g.handOver? times) := by
  have hcut : Sorting.Cut (g.reaches now) todo (todo.takeWhile (g.reaches now)).length :=
    reaches_cut hsorted
  have hnow : ∀ e ∈ todo.takeWhile (g.reaches now), g.reaches now e = true := fun e he =>
    hcut.of_mem_take (by rwa [Sorting.take_length_takeWhile])
  have hlater : ∀ e ∈ todo.dropWhile (g.reaches now), ¬g.reaches now e = true := fun e he =>
    hcut.of_mem_drop (by rwa [Sorting.drop_length_takeWhile])
  -- horizons do not go back, so the last one reaches what this round hands over
  have hall : (todo.takeWhile (g.reaches now)).filter (g.reaches last)
      = todo.takeWhile (g.reaches now) := by
    rw [List.filter_eq_self]
    intro e he
    have := hnow e he
    unfold reaches at this ⊢
    rw [decide_eq_true_eq] at this ⊢
    exact this.trans (g.horizon_mono hlast)
  conv => lhs; rw [← List.takeWhile_append_dropWhile (p := g.reaches now) (l := todo)]
  rw [List.filter_append, List.filterMap_append, hall]
  congr 1
  · exact List.filterMap_congr fun e he => handOver?_of_reaches (hnow e he)
  · exact List.filterMap_congr fun e he =>
      handOver?_of_not_reaches (hlater e (List.mem_filter.mp he).1)

/-- Of times in order, the first one is no later than the last one. -/
theorem le_getLastD {times : List Rat} (h : (now :: times).Pairwise (· ≤ ·)) :
    now ≤ times.getLastD now := by
  rcases List.mem_cons.mp (List.getLastD_mem_cons (l := times) (a := now)) with heq | hmem
  · exact heq.ge
  · exact List.rel_of_pairwise_cons h hmem

/-- **Rounds hand over what the last horizon reaches**, however many they are: each event in the
first round that comes upon it. -/
theorem Runs.rounds_eq : ∀ {times : List Rat} {now : Rat} {p : Player Rat}
    {todo : List (TimedEvent Rat)}, g.Runs p todo → todo.Pairwise (·.seconds ≤ ·.seconds) →
      (now :: times).Pairwise (· ≤ ·) →
      p.rounds (now :: times)
        = (todo.filter (g.reaches (times.getLastD now))).filterMap (g.handOver? (now :: times))
  | times, now, p, todo, h, hsorted, htimes => by
      obtain ⟨hhanded, hnext⟩ := h.tick now
      rw [Player.rounds, hhanded, filterMap_handOver? hsorted (le_getLastD htimes)]
      congr 1
      rcases hnext with hruns | ⟨hidle, hnil⟩
      · match times with
        | [] =>
          symm
          rw [Player.rounds, List.filterMap_eq_nil_iff]
          exact fun _ _ => rfl
        | next :: rest =>
          rw [List.getLastD_cons]
          exact hruns.rounds_eq (hsorted.sublist (List.dropWhile_sublist _))
            (List.Pairwise.of_cons htimes)
      · -- a player that came to the end has nothing left, and does nothing
        rw [Player.rounds_idle hidle, hnil]
        rfl

/-! ## What was handed over -/

theorem handOver?_eq_some {times : List Rat} {e : TimedEvent Rat} {h : HandOver}
    (hsome : g.handOver? times e = some h) :
    times.find? (fun now => g.reaches now e) = some h.given ∧ h.event = e
      ∧ h.time = max (g.timeOf e) h.given := by
  obtain ⟨now, hfind, hgiven⟩ := Option.bind_eq_some_iff.mp hsome
  unfold handOverAt at hgiven
  split at hgiven
  · cases hgiven
  · cases hgiven
    exact ⟨hfind, rfl, rfl⟩

/-- The first time that passes a test is the least one that does. -/
theorem find?_le {times : List Rat} (htimes : times.Pairwise (· ≤ ·)) {test : Rat → Bool}
    {first other : Rat} (hfirst : times.find? test = some first) (hmem : other ∈ times)
    (hother : test other = true) : first ≤ other := by
  obtain ⟨_, before, after, rfl, hbefore⟩ := List.find?_eq_some_iff_append.mp hfirst
  rcases List.mem_append.mp hmem with hmem | hmem
  · have := hbefore other hmem
    rw [hother] at this
    cases this
  · rcases List.mem_cons.mp hmem with rfl | hmem
    · exact le_rfl
    · exact List.rel_of_pairwise_cons (List.pairwise_append.mp htimes).2.1 hmem

/-- An earlier event does not sound later. -/
theorem handOver?_time_le {times : List Rat} (htimes : times.Pairwise (· ≤ ·))
    {e e' : TimedEvent Rat} (hle : e.seconds ≤ e'.seconds) {h h' : HandOver}
    (hsome : g.handOver? times e = some h) (hsome' : g.handOver? times e' = some h') :
    h.time ≤ h'.time := by
  obtain ⟨hfind, _, htime⟩ := handOver?_eq_some hsome
  obtain ⟨hfind', _, htime'⟩ := handOver?_eq_some hsome'
  -- the round that comes upon the later event looks far enough for the earlier one
  have hgiven : h.given ≤ h'.given := by
    refine find?_le htimes hfind (List.mem_of_find?_eq_some hfind') ?_
    have := List.find?_some hfind'
    unfold reaches at this ⊢
    rw [decide_eq_true_eq] at this ⊢
    exact hle.trans this
  rw [htime, htime']
  refine max_le_max ?_ hgiven
  unfold timeOf
  linarith

/-- Rounds that come often enough leave nothing out. -/
theorem handOver?_of_frequent : ∀ {times : List Rat} {now : Rat} {e : TimedEvent Rat},
    (now :: times).IsChain (fun a b => b - a ≤ g.lookahead + 1 / 20) →
    now - 1 / 20 ≤ g.timeOf e → g.reaches (times.getLastD now) e = true →
    ∃ h, g.handOver? (now :: times) e = some h ∧ h.event = e
  | times, now, e, hoften, hsoon, hlast => by
      by_cases hnow : g.reaches now e = true
      · refine ⟨⟨now, e, max (g.timeOf e) now⟩, ?_, rfl⟩
        rw [handOver?_of_reaches hnow, handOverAt, if_neg fun hlate => not_lt.mpr hsoon hlate.2]
      · match times with
        | [] => exact absurd hlast hnow
        | next :: rest =>
          obtain ⟨hgap, hrest⟩ := List.isChain_cons_cons.mp hoften
          rw [handOver?_of_not_reaches hnow]
          refine handOver?_of_frequent hrest ?_ (by rwa [List.getLastD_cons] at hlast)
          -- the event lies beyond the horizon of this round, so it is not late in the next one
          unfold reaches horizon at hnow
          rw [decide_eq_true_eq, not_le] at hnow
          unfold timeOf
          linarith

end Segment

/-! ## The start of a stretch -/

/-- The cursor stands before the first event that is not before the playhead. -/
theorem drop_cursorAt {events : List (TimedEvent Rat)} (position : Rat)
    (hsorted : events.Pairwise (·.seconds ≤ ·.seconds)) :
    events.drop (Player.cursorAt events position)
      = events.filter fun e => decide (position ≤ e.seconds) := by
  have hcut : Sorting.Cut (fun e => decide (e.seconds < position)) events
      (Player.cursorAt events position) :=
    Sorting.cut_partitionPoint _ (hsorted.imp fun hab hb => by
      rw [decide_eq_true_eq] at hb ⊢
      exact hab.trans_lt hb)
  generalize Player.cursorAt events position = cursor at hcut
  have hbefore : ∀ e ∈ events.take cursor, ¬position ≤ e.seconds := fun e he => by
    simpa using hcut.of_mem_take he
  have hbehind : ∀ e ∈ events.drop cursor, position ≤ e.seconds := fun e he => by
    simpa using hcut.of_mem_drop he
  conv => rhs; rw [← List.take_append_drop cursor events]
  rw [List.filter_append, List.filter_eq_nil_iff.mpr (by simpa using hbefore),
    List.filter_eq_self.mpr (by simpa using hbehind), List.nil_append]

theorem handedOver_setups (p : Player Rat) (now : Rat) : handedOver now p.setups = [] := by
  unfold handedOver Player.setups
  rw [List.filterMap_filterMap, List.filterMap_eq_nil_iff]
  intro a _
  cases p.sounds.get? a.track <;> rfl

theorem Player.seek_playing {p : Player Rat} {now seconds : Rat} (h : p.mode = .playing) :
    p.seek now seconds = Reply.after [.order .cancelAll]
      ((p.startAt now (max 0 (min seconds p.duration))).tick now) := by
  rw [Player.seek, if_pos h, Scalar.max_rat, Scalar.min_rat, Scalar.numeral_rat, Nat.cast_zero]

/-- A stretch starts with a round of its own. -/
theorem Player.Starts.runs {p : Player Rat} {start position : Rat} {reply : Reply Rat}
    (h : p.Starts start position reply) :
    ∃ q, Segment.Runs ⟨start, position, p.lookahead⟩ q
        (p.timeline.events.drop (Player.cursorAt p.timeline.events position)) ∧
      handedOver start reply.commands = handedOver start (q.tick start).commands ∧
      reply.player = (q.tick start).player := by
  cases h with
  | play hmode =>
    refine ⟨{ p.startAt start p.heldPosition with mode := .playing },
      ⟨rfl, rfl, rfl, rfl, rfl⟩, ?_, ?_⟩
    · rw [Player.play, if_neg hmode]
      dsimp only [Reply.after]
      rw [Segment.handedOver_append, Segment.handedOver_append]
      split
      · rw [handedOver_setups]
        rfl
      · rfl
    · rw [Player.play, if_neg hmode]
      rfl
  | seek seconds hmode =>
    refine ⟨p.startAt start (max 0 (min seconds p.duration)), ⟨hmode, rfl, rfl, rfl, rfl⟩, ?_, ?_⟩
    · rw [Player.seek_playing hmode]
      dsimp only [Reply.after]
      rw [Segment.handedOver_append]
      rfl
    · rw [Player.seek_playing hmode]
      rfl

/-- **Rounds make no difference to what is handed over.** In a stretch that starts at a time with
the playhead at a position, rounds at any times that do not go back hand over the events from the
position to the last horizon, in order and once each, but for the starts of notes whose first round
comes more than the tolerance too late. What is handed over later sounds no earlier, nothing sounds
before it is handed over, and if no two rounds are further apart than the lookahead and the
tolerance, nothing is left out. -/
theorem handedOver_segment {p : Player Rat} {start position : Rat} {reply : Reply Rat}
    {times : List Rat} (hstarts : p.Starts start position reply)
    (hsorted : p.timeline.events.Pairwise (·.seconds ≤ ·.seconds))
    (htimes : (start :: times).Pairwise (· ≤ ·)) :
    let g : Segment := ⟨start, position, p.lookahead⟩
    let handed := handedOver start reply.commands ++ reply.player.rounds times
    let inReach := p.timeline.events.filter fun e => position ≤ e.seconds ∧
      e.seconds ≤ position + (times.getLastD start - start) + p.lookahead
    handed = inReach.filterMap (g.handOver? (start :: times)) ∧
      handed.Pairwise (·.time ≤ ·.time) ∧
      (∀ h ∈ handed, h.given ≤ h.time) ∧
      ((start :: times).IsChain (fun now next => next - now ≤ p.lookahead + 1 / 20) →
        handed.map (·.event) = inReach) := by
  intro g handed inReach
  obtain ⟨q, hruns, hcommands, hplayer⟩ := hstarts.runs
  have hhanded : handed = inReach.filterMap (g.handOver? (start :: times)) := by
    have hrounds := hruns.rounds_eq (hsorted.sublist (List.drop_sublist _ _)) htimes
    rw [Player.rounds, ← hcommands, ← hplayer, drop_cursorAt position hsorted,
      List.filter_filter] at hrounds
    refine hrounds.trans (congrArg _ (List.filter_congr fun e _ => ?_))
    unfold Segment.reaches Segment.horizon
    rw [Bool.and_comm, Bool.decide_and]
  refine ⟨hhanded, ?_, ?_, ?_⟩
  · rw [hhanded, List.pairwise_filterMap]
    exact (hsorted.filter _).imp fun hle h hsome h' hsome' =>
      Segment.handOver?_time_le htimes hle hsome hsome'
  · intro h hmem
    rw [hhanded] at hmem
    obtain ⟨e, _, hsome⟩ := List.mem_filterMap.mp hmem
    rw [(Segment.handOver?_eq_some hsome).2.2]
    exact le_max_right ..
  · intro hoften
    rw [hhanded, List.map_filterMap]
    conv => rhs; rw [← List.filterMap_some (l := inReach)]
    refine List.filterMap_congr fun e he => ?_
    obtain ⟨hposition, hlast⟩ := of_decide_eq_true (List.mem_filter.mp he).2
    have hsoon : start - 1 / 20 ≤ g.timeOf e := by
      show start - 1 / 20 ≤ start + e.seconds - position
      linarith
    have hreaches : g.reaches (times.getLastD start) e = true := decide_eq_true hlast
    obtain ⟨h, hsome, hevent⟩ := Segment.handOver?_of_frequent hoften hsoon hreaches
    rw [hsome, Option.map_some, hevent]

/-- One note of half a second. -/
def oneNote : Timeline Rat where
  events := [⟨.noteOn, 0, 0, 60, 100, "Lead"⟩, ⟨.noteOff, 1 / 2, 0, 60, 0, "Lead"⟩]
  channels := []
  tempo := 120
  durationSeconds := 2

theorem handedOver_segment_oneNote :
    let p : Player Rat := Player.ofTimeline (1 / 10) 25 oneNote []
    (handedOver 7 (p.play 7).commands ++ (p.play 7).player.rounds [7, 15 / 2]).Pairwise
        (·.time ≤ ·.time) ∧
      (handedOver 7 (p.play 7).commands ++ (p.play 7).player.rounds [7, 15 / 2]).map (·.time)
        = [7, 15 / 2] :=
  ⟨(handedOver_segment (.play (by decide)) (by decide +kernel) (by decide +kernel)).2.1,
    by decide +kernel⟩

end LeadSheet.Playback
