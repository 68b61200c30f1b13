import LeadSheet.Number.Scalar

/-!
# A clock with timers

Playback runs on timers: one that repeats and drives the player, and one for each message that waits
to be sent. The clock holds the time, in milliseconds, and the timers that have not run out, in the
order in which they were started; the number of a timer says how many were started before it.

Time passes in two ways. `jump` moves it without any timer running, as if everything had been busy.
Otherwise the timers that fall due on the way run (`runDue`), the earliest first and of two due at
one time the one started first. A timer that is late runs at the present time, so the time never
goes back.
-/

namespace LeadSheet.Playback

/-- A timer: what it does, when, and whether it repeats. -/
structure Timer (τ α : Type) where
  number : Nat
  due : α
  /-- The time until it is due again, if it repeats. -/
  period : Option α
  action : τ
  deriving DecidableEq, Repr

/-- What is left of a timer that runs: one that repeats is due a period later. -/
def Timer.again {τ α : Type} [Add α] (timer : Timer τ α) : Option (Timer τ α) :=
  timer.period.map fun period => { timer with due := timer.due + period }

/-- The time, and the timers that have not run out. -/
structure Clock (τ α : Type) where
  /-- In milliseconds. -/
  now : α
  /-- In the order in which they were started. -/
  timers : List (Timer τ α)
  /-- How many timers were ever started. -/
  started : Nat
  deriving DecidableEq, Repr

namespace Clock

variable {τ α : Type}

/-- A clock without timers. -/
def startingAt (now : α) : Clock τ α := ⟨now, [], 0⟩

/-- Stops a timer. -/
def cancel (c : Clock τ α) (number : Nat) : Clock τ α :=
  { c with timers := c.timers.filter (·.number ≠ number) }

variable [Scalar α]

/-- Starts a timer that is due after a delay; its number is `c.started`. -/
def start (c : Clock τ α) (delay : α) (period : Option α) (action : τ) : Clock τ α :=
  { c with
    timers := c.timers ++ [⟨c.started, c.now + delay, period, action⟩]
    started := c.started + 1 }

/-- Starts a timer that runs once. -/
def startOnce (c : Clock τ α) (delay : α) (action : τ) : Clock τ α := c.start delay none action

/-- Starts a timer that runs again and again. -/
def startEvery (c : Clock τ α) (period : α) (action : τ) : Clock τ α :=
  c.start period (some period) action

/-- Lets time pass without any timer running. -/
def jump (c : Clock τ α) (milliseconds : α) : Clock τ α := { c with now := c.now + milliseconds }

/-- The timer that is due first, of two due at one time the one started first. -/
def earliest? : List (Timer τ α) → Option (Timer τ α)
  | [] => none
  | timer :: rest =>
    match earliest? rest with
    | none => some timer
    | some other => if other.due < timer.due then some other else some timer

/-- The timer that runs next, if one is due by a time. -/
def next? (c : Clock τ α) (stop : α) : Option (Timer τ α) :=
  earliest? (c.timers.filter fun timer => timer.due ≤ stop)

/-- A timer runs. If it is late, time stands still. -/
def fire (c : Clock τ α) (timer : Timer τ α) : Clock τ α :=
  { c with
    now := if c.now < timer.due then timer.due else c.now
    timers := c.timers.filterMap fun other =>
      if other.number = timer.number then other.again else some other }

/-- Runs the timers of a state that are due by a time, so many at most. `step` lets a timer run in
the state. -/
def runDue {σ : Type} (clockOf : σ → Clock τ α) (step : σ → Timer τ α → σ) (stop : α) :
    Nat → σ → σ
  | 0, state => state
  | steps + 1, state =>
    match (clockOf state).next? stop with
    | none => state
    | some timer => runDue clockOf step stop steps (step state timer)

/-- How many timers one stretch of time lets run at most. A timer that repeats without any time in
between would otherwise run forever. -/
def runLimit : Nat := 1000000000000

end Clock

end LeadSheet.Playback
