import LeadSheet.Playback.Player
import LeadSheet.Proofs.Number.Order
import LeadSheet.Proofs.Sorting.Halving

/-!
# The cursor

Where a stretch of playing begins, the cursor is looked for anew, by halving. In events that are in
order it is the number of those before the playhead, so that what stands before the cursor lies
before the playhead and what stands behind it does not (`startAt_cursor`). Many events may fall on
the time of the playhead; the cursor stands before all of them.

The times may be any numbers that are in order, doubles as well as fractions. A time that is no
number comes before nothing and after nothing, which is why it stands behind the cursor without
being at the playhead or after it.
-/

namespace LeadSheet.Playback

variable {α : Type} [Scalar α]

/-- Whether an event lies before a position. -/
def liesBefore (position : α) (event : TimedEvent α) : Bool := event.seconds < position

section

variable [OrderedNumbers α] {events : List (TimedEvent α)} {position : α}

/-- What stands before an event that lies before a position lies there too. -/
theorem pairwise_liesBefore (position : α) (hsorted : events.Pairwise (·.seconds ≤ ·.seconds)) :
    events.Pairwise fun a b => liesBefore position b = true → liesBefore position a = true := by
  refine hsorted.imp fun {a b} hle hbefore => ?_
  have hlt : b.seconds < position := of_decide_eq_true hbefore
  exact decide_eq_true (OrderedNumbers.lt_of_le_of_lt hle hlt)

theorem cut_cursorAt (position : α) (hsorted : events.Pairwise (·.seconds ≤ ·.seconds)) :
    Sorting.Cut (liesBefore position) events (Player.cursorAt events position) :=
  Sorting.cut_partitionPoint _ (pairwise_liesBefore position hsorted)

end

/-- **The cursor is the lower bound.** A player starts at a position of a song whose events are in
order. The search for its cursor goes on for as long as there is something to halve and ends with
both its places at the cursor; that is the number of events before the position. All events before
the cursor lie before the position, and none from there on: they lie at it or after it, where both
are numbers. -/
theorem startAt_cursor [OrderedNumbers α] {p : Player α} (now position : α)
    (hsorted : p.timeline.events.Pairwise (·.seconds ≤ ·.seconds)) :
    let events := p.timeline.events
    let cursor := (p.startAt now position).cursor
    let Round := Sorting.Halves (liesBefore position) events
    Relation.ReflTransGen Round (0, events.length) (cursor, cursor) ∧
      (∀ next, ¬Round (cursor, cursor) next) ∧
      cursor = events.countP (liesBefore position) ∧
      (∀ event ∈ events.take cursor, event.seconds < position) ∧
      ∀ event ∈ events.drop cursor, ¬event.seconds < position ∧
        (Scalar.IsNumber event.seconds → Scalar.IsNumber position → position ≤ event.seconds) := by
  intro events cursor Round
  have hcut : Sorting.Cut (liesBefore position) events cursor :=
    cut_cursorAt position hsorted
  refine ⟨Sorting.halves_partitionPoint _ events, Sorting.not_halves_self cursor,
    hcut.countP_eq.symm, ?_, ?_⟩
  · intro event hevent
    exact of_decide_eq_true (hcut.of_mem_take hevent)
  · intro event hevent
    have hnot : ¬event.seconds < position := fun hlt =>
      hcut.of_mem_drop hevent (decide_eq_true hlt)
    exact ⟨hnot, fun hseconds hposition => OrderedNumbers.le_of_not_lt hseconds hposition hnot⟩

/-- Six events, three of them at the time at which the player starts. -/
theorem startAt_cursor_chord :
    let event (seconds : Float) : TimedEvent Float := ⟨.noteOn, seconds, 0, 60, 100, "Lead"⟩
    let song : Timeline Float := ⟨[0, 0.5, 1, 1, 1, 1.5].map event, [], 120, 2⟩
    let p : Player Float := Player.ofTimeline 0.1 25 song []
    song.events.Pairwise (·.seconds ≤ ·.seconds) ∧ (p.startAt 7 1).cursor = 2 ∧
      ∀ e ∈ song.events.drop 2, ¬e.seconds < 1 := by
  intro event song p
  have hsorted : song.events.Pairwise (·.seconds ≤ ·.seconds) := by decide +kernel
  have hcursor : (p.startAt 7 1).cursor = 2 := by decide +kernel
  obtain ⟨-, -, -, -, hbehind⟩ := startAt_cursor (p := p) 7 1 hsorted
  rw [hcursor] at hbehind
  exact ⟨hsorted, hcursor, fun e he => (hbehind e he).1⟩

end LeadSheet.Playback
