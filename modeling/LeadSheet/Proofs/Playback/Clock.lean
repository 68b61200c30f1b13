import LeadSheet.Playback.Clock
import Mathlib.Tactic.Common

/-!
# What becomes of timers

Where a timer of a clock came from, for everything that is done to clocks, and the induction for a
stretch of time: what a timer that runs preserves, `runDue` preserves (`runDue_induction`).
-/

namespace LeadSheet.Playback

variable {τ α : Type}

theorem Timer.of_again [Add α] {timer next : Timer τ α} (h : timer.again = some next) :
    next.number = timer.number ∧ next.action = timer.action ∧ timer.period ≠ none := by
  obtain ⟨period, hperiod, rfl⟩ := Option.map_eq_some_iff.mp h
  exact ⟨rfl, rfl, by simp [hperiod]⟩

namespace Clock

theorem mem_cancel {c : Clock τ α} {number : Nat} {timer : Timer τ α} :
    timer ∈ (c.cancel number).timers ↔ timer ∈ c.timers ∧ timer.number ≠ number := by
  simp [cancel]

theorem mem_foldl_cancel {numbers : List Nat} {c : Clock τ α} {timer : Timer τ α} :
    timer ∈ (numbers.foldl cancel c).timers ↔ timer ∈ c.timers ∧ timer.number ∉ numbers := by
  induction numbers generalizing c with
  | nil => simp
  | cons number rest ih =>
    rw [List.foldl_cons, ih, mem_cancel, List.mem_cons, not_or, and_assoc]

/-- Only timers are stopped. -/
theorem foldl_cancel_eq (numbers : List Nat) (c : Clock τ α) :
    (numbers.foldl cancel c).now = c.now ∧ (numbers.foldl cancel c).started = c.started := by
  induction numbers generalizing c with
  | nil => exact ⟨rfl, rfl⟩
  | cons number rest ih => exact ih (c.cancel number)

variable [Scalar α]

theorem mem_start {c : Clock τ α} {delay : α} {period : Option α} {action : τ}
    {timer : Timer τ α} (h : timer ∈ (c.start delay period action).timers) :
    timer ∈ c.timers ∨
      timer.number = c.started ∧ timer.period = period ∧ timer.action = action := by
  rcases List.mem_append.mp h with hold | hnew
  · exact .inl hold
  · obtain rfl := List.mem_singleton.mp hnew
    exact .inr ⟨rfl, rfl, rfl⟩

/-- What is left behind a timer that ran: other timers, and what repeats. -/
theorem mem_fire {c : Clock τ α} {timer left : Timer τ α} (h : left ∈ (c.fire timer).timers) :
    left ∈ c.timers ∧ left.number ≠ timer.number ∨
      ∃ ran ∈ c.timers, ran.number = timer.number ∧ ran.again = some left := by
  obtain ⟨other, hother, hleft⟩ := List.mem_filterMap.mp h
  split at hleft
  · -- the timer that ran, which is left if it repeats
    exact .inr ⟨other, hother, ‹_›, hleft⟩
  · obtain rfl := Option.some.inj hleft
    exact .inl ⟨hother, ‹_›⟩

/-! ## A stretch of time -/

theorem mem_of_earliest? {timer : Timer τ α} :
    ∀ {timers : List (Timer τ α)}, earliest? timers = some timer → timer ∈ timers
  | first :: rest, h => by
    unfold earliest? at h
    split at h
    · obtain rfl := Option.some.inj h
      exact List.mem_cons_self
    · next other hother =>
      split at h
      · obtain rfl := Option.some.inj h
        exact List.mem_cons_of_mem _ (mem_of_earliest? hother)
      · obtain rfl := Option.some.inj h
        exact List.mem_cons_self

theorem mem_of_next? {c : Clock τ α} {stop : α} {timer : Timer τ α}
    (h : c.next? stop = some timer) : timer ∈ c.timers :=
  (List.mem_filter.mp (mem_of_earliest? h)).1

/-- **What every timer that runs preserves holds behind a stretch of time.** -/
theorem runDue_induction {σ : Type} {clockOf : σ → Clock τ α} {step : σ → Timer τ α → σ}
    {stop : α} {holds : σ → Prop}
    (hstep : ∀ state timer, holds state → timer ∈ (clockOf state).timers →
      holds (step state timer)) :
    ∀ (steps : Nat) (state : σ), holds state → holds (runDue clockOf step stop steps state)
  | 0, _, h => h
  | steps + 1, state, h => by
    unfold runDue
    split
    · exact h
    · next timer htimer =>
      exact runDue_induction hstep steps _ (hstep state timer h (mem_of_next? htimer))

end Clock

end LeadSheet.Playback
