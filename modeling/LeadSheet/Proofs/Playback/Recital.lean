import LeadSheet.Device.Basic
import LeadSheet.Proofs.Playback.Dispatch
import Mathlib.Algebra.Order.Archimedean.Basic
import Mathlib.Data.List.TakeWhile

/-!
# A song from start to end

A song is played from its start on a device whose port is open, and then left to itself. The loop
comes round no less often than it looks ahead, so in exact arithmetic nothing is ever late: each
round hands over the events it comes upon, each for the time at which it is to sound, until a round
finds the song over (`Recital.tick_playerAt`); and one does (`Recital.exists_over`).
-/

namespace LeadSheet.Playback

open Device (messageOf)

/-- A song that is played from its start, and the device it is played on. -/
structure Recital where
  /-- The player at the start. -/
  player : Player Rat
  /-- The open port. -/
  port : Port
  /-- When the device was made, in milliseconds. -/
  made : Rat
  /-- When playing starts, in milliseconds. -/
  start : Rat
  /-- The number of the timer of the loop. -/
  loop : Nat
  /-- What was called before the first event. -/
  calls : List (Call Rat)
  mode_eq : player.mode = .playing
  position_eq : player.startPosition = 0
  time_eq : player.startTime = (start - made) / 1000
  period_pos : 0 < player.period
  /-- The loop comes round no less often than it looks ahead. -/
  period_le : player.period ≤ 1000 * player.lookahead
  rising : player.timeline.events.Pairwise (·.seconds ≤ ·.seconds)
  nonneg : ∀ e ∈ player.timeline.events, 0 ≤ e.seconds

namespace Recital

variable (g : Recital)

/-! ## Rounds -/

/-- The events of the song. -/
def events : List (TimedEvent Rat) := g.player.timeline.events

/-- The seconds from the start of playing to a round of the loop. -/
def elapsed (round : Nat) : Rat := round * g.player.period / 1000

/-- The time of a round on the device's clock. -/
def time (round : Nat) : Rat := g.player.startTime + g.elapsed round

/-- How far a round looks. -/
def horizon (round : Nat) : Rat := g.elapsed round + g.player.lookahead

/-- Whether a round comes upon an event. -/
def reaches (round : Nat) (e : TimedEvent Rat) : Bool := e.seconds ≤ g.horizon round

/-- The song is over by a round, and everything was handed over. -/
def Over (round : Nat) : Prop :=
  g.player.duration ≤ g.elapsed round ∧ ∀ e ∈ g.events, e.seconds ≤ g.horizon round

instance (round : Nat) : Decidable (g.Over round) :=
  inferInstanceAs (Decidable (_ ∧ ∀ e ∈ g.events, e.seconds ≤ g.horizon round))

/-- The player when so many events were handed over. -/
def playerAt (cursor : Nat) : Player Rat := { g.player with cursor }

/-- The command that lets an event wait. -/
def handing (e : TimedEvent Rat) : Command Rat :=
  .order (.schedule e (g.player.startTime + e.seconds))

/-- The call that sends an event. -/
def sending (e : TimedEvent Rat) : Call Rat := .send g.port (messageOf e)

/-- The timer of the loop before a round. -/
def loopTimer (round : Nat) : Timer Alarm Rat :=
  ⟨g.loop, g.start + 1000 * g.elapsed round, some g.player.period, .loop⟩

/-- The timer in which an event waits. -/
def messageTimer (waiting : TimedEvent Rat × Nat) : Timer Alarm Rat :=
  ⟨waiting.2, g.start + 1000 * waiting.1.seconds, none, .message (messageOf waiting.1)⟩

/-- The timers in which events wait, from a number on. -/
def messageTimers (number : Nat) (queue : List (TimedEvent Rat)) : List (Timer Alarm Rat) :=
  (queue.zipIdx number).map g.messageTimer

theorem elapsed_zero : g.elapsed 0 = 0 := by
  unfold elapsed
  rw [Nat.cast_zero, zero_mul, zero_div]

theorem elapsed_succ (round : Nat) :
    g.elapsed (round + 1) = g.elapsed round + g.player.period / 1000 := by
  unfold elapsed
  push_cast
  ring

theorem elapsed_lt_succ (round : Nat) : g.elapsed round < g.elapsed (round + 1) := by
  have := g.period_pos
  rw [elapsed_succ]
  linarith

/-- What a round does not look upon is not due before the next one. -/
theorem elapsed_succ_le_horizon (round : Nat) : g.elapsed (round + 1) ≤ g.horizon round := by
  have := g.period_le
  rw [elapsed_succ, horizon]
  linarith

theorem horizon_le_succ (round : Nat) : g.horizon round ≤ g.horizon (round + 1) :=
  add_le_add_left (g.elapsed_lt_succ round).le _

/-- Every song is over in the end. -/
theorem exists_over : ∃ round, g.Over round := by
  have hperiod : 0 < g.player.period / 1000 := by
    have := g.period_pos
    positivity
  -- there is a last thing to wait for, and rounds get to any time
  obtain ⟨last, hlast⟩ : ∃ last : Rat, g.player.duration ≤ last ∧
      ∀ e ∈ g.events, e.seconds - g.player.lookahead ≤ last := by
    induction g.events with
    | nil => exact ⟨_, le_rfl, by simp⟩
    | cons e rest ih =>
      obtain ⟨last, hduration, hrest⟩ := ih
      refine ⟨max last (e.seconds - g.player.lookahead), hduration.trans (le_max_left ..), ?_⟩
      exact List.forall_mem_cons.mpr
        ⟨le_max_right .., fun other hmem => (hrest other hmem).trans (le_max_left ..)⟩
  obtain ⟨round, hround⟩ := exists_nat_ge (last / (g.player.period / 1000))
  have helapsed : last ≤ g.elapsed round := by
    rw [div_le_iff₀ hperiod] at hround
    rw [elapsed]
    linarith
  refine ⟨round, hlast.1.trans helapsed, fun e he => ?_⟩
  have := hlast.2 e he
  rw [horizon]
  linarith

/-! ## Timers of messages -/

section

variable {g} {number : Nat} {queue : List (TimedEvent Rat)}

theorem messageTimers_cons (e : TimedEvent Rat) :
    g.messageTimers number (e :: queue)
      = g.messageTimer (e, number) :: g.messageTimers (number + 1) queue := rfl

theorem messageTimers_concat (e : TimedEvent Rat) :
    g.messageTimers number (queue ++ [e])
      = g.messageTimers number queue ++ [g.messageTimer (e, number + queue.length)] := by
  unfold messageTimers
  rw [List.zipIdx_append, List.map_append, List.zipIdx_cons, List.zipIdx_nil]
  rfl

theorem of_mem_messageTimers {timer : Timer Alarm Rat}
    (h : timer ∈ g.messageTimers number queue) :
    timer.number ∈ List.range' number queue.length ∧
      ∃ e ∈ queue, timer.due = g.start + 1000 * e.seconds := by
  obtain ⟨waiting, hmem, rfl⟩ := List.mem_map.mp h
  refine ⟨?_, waiting.1, List.fst_mem_of_mem_zipIdx hmem, rfl⟩
  rw [← List.zipIdx_map_snd]
  exact List.mem_map_of_mem hmem

theorem le_number_of_mem_messageTimers {timer : Timer Alarm Rat}
    (h : timer ∈ g.messageTimers number queue) : number ≤ timer.number :=
  (List.mem_range'_1.mp (of_mem_messageTimers h).1).1

theorem exists_messageTimer {e : TimedEvent Rat} (h : e ∈ queue) :
    ∃ timer ∈ g.messageTimers number queue, timer.due = g.start + 1000 * e.seconds := by
  rw [← List.zipIdx_map_fst number queue] at h
  obtain ⟨waiting, hmem, rfl⟩ := List.mem_map.mp h
  exact ⟨_, List.mem_map_of_mem hmem, rfl⟩

theorem due_le_of_messageTimers (h : queue.Pairwise (·.seconds ≤ ·.seconds)) :
    (g.messageTimers number queue).Pairwise (·.due ≤ ·.due) := by
  induction queue generalizing number with
  | nil => exact .nil
  | cons e rest ih =>
    obtain ⟨hfirst, hrest⟩ := List.pairwise_cons.mp h
    rw [messageTimers_cons]
    refine .cons (fun timer hmem => ?_) (ih hrest)
    obtain ⟨-, other, hother, hdue⟩ := of_mem_messageTimers hmem
    have := hfirst other hother
    rw [hdue, messageTimer]
    linarith

end

/-! ## A round -/

section

variable {g} {round cursor : Nat} {done todo : List (TimedEvent Rat)}

theorem reached_playerAt : (g.playerAt cursor).reached (g.time round) = g.elapsed round := by
  unfold playerAt Player.reached time
  dsimp only
  rw [g.position_eq]
  ring

theorem upcoming_playerAt (hsplit : g.events = done ++ todo) :
    (g.playerAt done.length).upcoming (g.time round) = todo.takeWhile (g.reaches round) := by
  have hruns : Segment.Runs ⟨g.player.startTime, 0, g.player.lookahead⟩ (g.playerAt done.length)
      todo := by
    refine ⟨g.mode_eq, rfl, g.position_eq, rfl, ?_⟩
    change g.events.drop done.length = todo
    rw [hsplit, List.drop_left]
  rw [hruns.upcoming_eq]
  congr 1
  funext e
  unfold Segment.reaches Segment.horizon reaches horizon time
  dsimp only
  rw [zero_add, add_sub_cancel_left]

/-- An event that is not late is handed over for its time. -/
theorem dispatch?_playerAt {e : TimedEvent Rat} (hsoon : g.elapsed round ≤ e.seconds) :
    (g.playerAt cursor).dispatch? (g.time round) e = some (g.handing e) := by
  have htime : (g.playerAt cursor).timeOf e = g.player.startTime + e.seconds := by
    unfold playerAt Player.timeOf
    dsimp only
    rw [g.position_eq, sub_zero]
  have hle : g.time round ≤ g.player.startTime + e.seconds := add_le_add_right hsoon _
  have hlate : (0 : Rat) ≤ lateTolerance := by
    unfold lateTolerance
    rw [Scalar.ofDecimal_rat]
    positivity
  unfold Player.dispatch?
  rw [htime]
  dsimp only
  rw [if_neg fun h => absurd h.2 (by linarith), Scalar.max_rat, max_eq_left hle]
  rfl

/-- Whether a round finds the song over does not depend on the rounds before. -/
theorem isOver_playerAt (hsplit : g.events = done ++ todo)
    (hdone : ∀ e ∈ done, e.seconds ≤ g.horizon round) :
    (g.playerAt (done.length + (todo.takeWhile (g.reaches round)).length)).isOver (g.time round)
      = decide (g.Over round) := by
  have hall : g.events.length ≤ done.length + (todo.takeWhile (g.reaches round)).length ↔
      ∀ e ∈ g.events, e.seconds ≤ g.horizon round := by
    have hlength : todo.length = (todo.takeWhile (g.reaches round)).length
        + (todo.dropWhile (g.reaches round)).length := by
      rw [← List.length_append, List.takeWhile_append_dropWhile]
    rw [hsplit, List.length_append, hlength, ← Nat.add_assoc, add_le_iff_nonpos_right,
      Nat.le_zero, List.length_eq_zero_iff, List.dropWhile_eq_nil_iff, List.forall_mem_append]
    unfold reaches
    simp only [decide_eq_true_eq]
    exact ⟨fun h => ⟨hdone, h⟩, And.right⟩
  unfold Player.isOver Over
  rw [reached_playerAt, ← Bool.decide_and]
  exact decide_eq_decide.mpr ((and_congr_left' hall).trans and_comm)

/-- **A round lets the events wait that it comes upon**, and may find the song over. -/
theorem tick_playerAt (hsplit : g.events = done ++ todo)
    (hdone : ∀ e ∈ done, e.seconds ≤ g.horizon round)
    (hsoon : ∀ e ∈ todo, g.elapsed round ≤ e.seconds) :
    let near := todo.takeWhile (g.reaches round)
    let next := g.playerAt (done ++ near).length
    (g.playerAt done.length).tick (g.time round)
      = if g.Over round then
          ⟨next.rewound, near.map g.handing ++ [.stopLoop, .order .cancelAll], true⟩
        else ⟨next, near.map g.handing, false⟩ := by
  intro near next
  have hover := isOver_playerAt hsplit hdone
  have hcommands : near.filterMap ((g.playerAt done.length).dispatch? (g.time round))
      = near.map g.handing := by
    rw [← List.filterMap_eq_map]
    exact List.filterMap_congr fun e he =>
      dispatch?_playerAt (hsoon e ((List.takeWhile_sublist _).subset he))
  rw [Player.tick, if_pos (by exact g.mode_eq), upcoming_playerAt hsplit]
  dsimp only
  rw [hcommands, show next = g.playerAt (done.length + near.length) by
    rw [← List.length_append]]
  change (if (g.playerAt (done.length + near.length)).isOver (g.time round) = true then _
    else _) = _
  rw [hover]
  by_cases h : g.Over round
  · rw [if_pos h, if_pos (decide_eq_true h)]
    rfl
  · rw [if_neg h, if_neg (by simpa using h)]
    rfl

end

end Recital

end LeadSheet.Playback
