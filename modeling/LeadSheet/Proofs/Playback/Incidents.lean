import LeadSheet.Proofs.Playback.Loop
import LeadSheet.Proofs.Playback.Playhead

/-!
# What all incidents keep

All that happens to a stage comes down to a few things: the player takes a turn and the reply is
carried out, the listener is told, reports an error or counts down, a timer runs, a message goes
out, and time passes. What each of these keeps, every run keeps, also when the listener plays again
in the middle of it (`Stage.Persists.incidents`). The songs that the player may be given on the way
can be of one kind only.

A stage with an observer has little to look at (`Stage.seen`), and all that a reply changes there
are the calls: its orders come on top (`Stage.seen_carryOut`).
-/

namespace LeadSheet.Playback

variable {α : Type}

/-! ## Every run -/

/-- If the turn brings another song, it is of some kind. -/
def Turn.OfSongs (songs : Timeline α → Prop) : Turn α → Prop
  | .load timeline _ => songs timeline
  | _ => True

/-- If the incident brings another song, it is of some kind. -/
def Incident.OfSongs (songs : Timeline α → Prop) : Incident α → Prop
  | .act (.load timeline _) => songs timeline
  | _ => True

/-- A property of stages that is kept by turns, with songs of some kind only, and by all that goes
on around them. -/
structure Stage.Persists {ω : Type} [Scalar α] [Synth ω α] (songs : Timeline α → Prop)
    (holds : Stage ω α → Prop) : Prop where
  take : ∀ {s : Stage ω α} (turn : Turn α), holds s → turn.OfSongs songs →
    holds (s.carryOut (s.player.take s.time turn))
  tell : ∀ {s : Stage ω α}, holds s → holds s.noteEnd
  say : ∀ {s : Stage ω α} (level : Level) (text : String), holds s →
    holds { s with host := s.host.say level text }
  listen : ∀ {s : Stage ω α} (listener : Listener), holds s → holds { s with listener }
  ring : ∀ {s : Stage ω α} (timer : Timer Alarm α), holds s →
    holds { s with host := { s.host with clock := s.host.clock.fire timer } }
  deliver : ∀ {s : Stage ω α} (number : Nat) (bytes : List UInt8), holds s →
    holds { s with host := Synth.deliver number bytes s.host }
  wait : ∀ {s : Stage ω α} (now : α), holds s →
    holds { s with host := { s.host with clock := { s.host.clock with now } } }

namespace Stage.Persists

variable {ω : Type} [Scalar α] [Synth ω α] {songs : Timeline α → Prop} {holds : Stage ω α → Prop}
  {s : Stage ω α} (hp : Persists songs holds)

include hp

theorem replay : ∀ (times : Nat) {s : Stage ω α}, holds s → holds (Stage.replay times s)
  | 0, _, h => hp.listen _ h
  | times + 1, s, h => by
    have hplayed := hp.listen (.replaying times) (hp.take .play h trivial)
    unfold Stage.replay
    dsimp only
    split
    · exact replay times (hp.tell hplayed)
    · exact hplayed

theorem notify (h : holds s) : holds s.notify := by
  unfold Stage.notify
  split
  · exact h
  · exact hp.tell h
  · exact hp.say .error _ (hp.tell h)
  · exact hp.replay _ (hp.tell h)

theorem settle (h : holds s) (turn : Turn α) (hturn : turn.OfSongs songs) :
    holds (s.settle (s.player.take s.time turn)) := by
  unfold Stage.settle
  split
  · exact hp.notify (hp.take turn h hturn)
  · exact hp.take turn h hturn

theorem fire (h : holds s) (timer : Timer Alarm α) : holds (s.fire timer) := by
  have hrang := hp.ring timer h
  unfold Stage.fire
  dsimp only
  split
  · exact hp.settle hrang .tick trivial
  · exact hp.deliver _ _ hrang

theorem advance (h : holds s) (milliseconds : α) : holds (s.advance milliseconds) := by
  have hfire : ∀ (state : Stage ω α) (timer : Timer Alarm α), holds state →
      timer ∈ state.host.clock.timers → holds (state.fire timer) :=
    fun _ timer hstate _ => hp.fire hstate timer
  exact hp.wait _ (Clock.runDue_induction hfire _ s h)

theorem undergo (h : holds s) {i : Incident α} (hi : i.OfSongs songs) : holds (s.undergo i) := by
  cases i with
  | fire timer => exact hp.fire h timer
  | act action =>
    cases action with
    | play => exact hp.settle h .play trivial
    | pause => exact hp.settle h .pause trivial
    | stop => exact hp.settle h .stop trivial
    | seek seconds => exact hp.settle h (.seek seconds) trivial
    | load timeline changes => exact hp.settle h (.load timeline changes) hi
    | dispose => exact hp.settle h .dispose trivial
    | setVolume track volume => exact hp.settle h (.setVolume track volume) trivial
    | setSound track change => exact hp.settle h (.setSound track change) trivial
    | jump milliseconds => exact hp.wait _ h
    | advance milliseconds => exact hp.advance h milliseconds

/-- **What turns keep, and all that goes on around them, every run keeps.** -/
theorem incidents {incidents : List (Incident α)} (h : holds s)
    (hincidents : ∀ i ∈ incidents, i.OfSongs songs) : holds (incidents.foldl Stage.undergo s) := by
  induction incidents generalizing s with
  | nil => exact h
  | cons i rest ih =>
    obtain ⟨hi, hrest⟩ := List.forall_mem_cons.mp hincidents
    exact ih (hp.undergo h hi) hrest

end Stage.Persists

/-! ## What there is to see -/

/-- What there is to see of a stage with an observer, besides the player and its loop. -/
structure Seen (α : Type) where
  calls : List (Call α)
  notices : List Notice
  /-- In milliseconds. -/
  now : α
  /-- What the observer's clock shows at a time in milliseconds. -/
  shows : α → α
  listener : Listener

/-- The order that a command gives, if it gives one. -/
def Command.order? : Command α → Option (Order α)
  | .order given => some given
  | .startLoop _ | .stopLoop => none

/-- The orders that are given, in order. -/
def ordersOf (commands : List (Command α)) : List (Order α) := commands.filterMap Command.order?

/-- What is seen when orders were given. -/
def Seen.hear (seen : Seen α) (orders : List (Order α)) : Seen α :=
  { seen with calls := seen.calls ++ orders.map .order }

theorem ordersOf_append (commands more : List (Command α)) :
    ordersOf (commands ++ more) = ordersOf commands ++ ordersOf more :=
  List.filterMap_append

theorem ordersOf_orders (given : List (Order α)) : ordersOf (given.map .order) = given := by
  rw [ordersOf, List.filterMap_map]
  exact List.filterMap_some

theorem mem_ordersOf {commands : List (Command α)} {given : Order α} :
    given ∈ ordersOf commands ↔ .order given ∈ commands := by
  unfold ordersOf
  rw [List.mem_filterMap]
  refine ⟨fun ⟨command, hmem, hgiven⟩ => ?_, fun hmem => ⟨_, hmem, rfl⟩⟩
  cases command with
  | order other => exact Option.some.inj hgiven ▸ hmem
  | startLoop period => cases hgiven
  | stopLoop => cases hgiven

namespace Stage

/-- What there is to see. -/
def seen (s : Stage (Observer α) α) : Seen α where
  calls := s.host.calls
  notices := s.host.notices
  now := s.host.clock.now
  shows := s.host.synth.shows
  listener := s.listener

theorem time_eq_seen (s : Stage (Observer α) α) : s.time = s.seen.shows s.seen.now := rfl

theorem seen_stopLoop (s : Stage (Observer α) α) : s.stopLoop.seen = s.seen := by
  unfold stopLoop
  split <;> rfl

variable [Scalar α]

theorem seen_foldl_perform (commands : List (Command α)) (s : Stage (Observer α) α) :
    (commands.foldl perform s).seen = s.seen.hear (ordersOf commands) := by
  induction commands generalizing s with
  | nil => simp [ordersOf, Seen.hear]
  | cons command rest ih =>
    rw [List.foldl_cons, ih]
    cases command with
    | order given => simp [perform, seen, Synth.obey, Host.record, Seen.hear, ordersOf,
        Command.order?]
    | startLoop period => rfl
    | stopLoop => exact congrArg (Seen.hear · (ordersOf rest)) (seen_stopLoop s)

/-- All that a reply changes are the calls, and its orders come on top. -/
theorem seen_carryOut (s : Stage (Observer α) α) (reply : Reply α) :
    (s.carryOut reply).seen = s.seen.hear (ordersOf reply.commands) :=
  seen_foldl_perform reply.commands s

end Stage

end LeadSheet.Playback
