import LeadSheet.Playback.Stage
import LeadSheet.Proofs.Number.Exact
import LeadSheet.Proofs.Playback.Clock

/-!
# Timers that run when they are due

A stage is left to itself: time passes, and every timer runs at the time at which it is due, of two
that are due at one time the one started first (`Stage.Unfolds`). Time that passes in
`Stage.advance` is of this kind (`Stage.exists_unfolds_advance`).
-/

namespace LeadSheet.Playback

namespace Clock

variable {τ : Type}

theorem earliest?_eq_none {timers : List (Timer τ Rat)} :
    earliest? timers = none ↔ timers = [] := by
  cases timers with
  | nil => simp [earliest?]
  | cons first rest =>
    unfold earliest?
    split
    · simp
    · split <;> simp

/-- The timers before the one that runs are due later, and those behind it no earlier. -/
theorem of_earliest? {timer : Timer τ Rat} : ∀ {timers : List (Timer τ Rat)},
    earliest? timers = some timer → ∃ before after, timers = before ++ timer :: after ∧
      (∀ other ∈ before, timer.due < other.due) ∧ ∀ other ∈ after, timer.due ≤ other.due
  | first :: rest, h => by
    unfold earliest? at h
    split at h
    · next hnone =>
      obtain rfl := Option.some.inj h
      obtain rfl := earliest?_eq_none.mp hnone
      exact ⟨[], [], rfl, by simp, by simp⟩
    · next other hother =>
      obtain ⟨before, after, rfl, hbefore, hafter⟩ := of_earliest? hother
      split at h
      · next hlt =>
        obtain rfl := Option.some.inj h
        exact ⟨first :: before, after, rfl, List.forall_mem_cons.mpr ⟨hlt, hbefore⟩, hafter⟩
      · next hge =>
        obtain rfl := Option.some.inj h
        have hle : first.due ≤ other.due := not_lt.mp hge
        refine ⟨[], before ++ other :: after, rfl, by simp, fun last hmem => ?_⟩
        rcases List.mem_append.mp hmem with hmem | hmem
        · exact hle.trans (hbefore last hmem).le
        · rcases List.mem_cons.mp hmem with rfl | hmem
          · exact hle
          · exact hle.trans (hafter last hmem)

/-- No timer is due before the one that runs. -/
theorem due_le_of_earliest? {timers : List (Timer τ Rat)} {timer other : Timer τ Rat}
    (h : earliest? timers = some timer) (hmem : other ∈ timers) : timer.due ≤ other.due := by
  obtain ⟨before, after, rfl, hbefore, hafter⟩ := of_earliest? h
  rcases List.mem_append.mp hmem with hmem | hmem
  · exact (hbefore other hmem).le
  · rcases List.mem_cons.mp hmem with rfl | hmem
    · exact le_rfl
    · exact hafter other hmem

/-- The first timer that is due by a time is the first one of all. -/
theorem earliest?_of_filter {stop : Rat} {timer : Timer τ Rat} :
    ∀ {timers : List (Timer τ Rat)},
      earliest? (timers.filter fun other => other.due ≤ stop) = some timer →
        earliest? timers = some timer
  | [], h => h
  | first :: rest, h => by
    have hrest : ∀ {other}, earliest? (rest.filter fun other => other.due ≤ stop) = some other →
        earliest? rest = some other := earliest?_of_filter
    by_cases hfirst : first.due ≤ stop
    · rw [List.filter_cons_of_pos (by simpa using hfirst)] at h
      cases hlater : earliest? (rest.filter fun other => other.due ≤ stop) with
      | some other =>
        unfold earliest? at h ⊢
        rw [hlater] at h
        rwa [hrest hlater]
      | none =>
        -- nothing else is due by then, so the first timer is due before all others
        unfold earliest? at h ⊢
        rw [hlater] at h
        cases hother : earliest? rest with
        | none => exact h
        | some other =>
          have hlate : stop < other.due := by
            have hnone := List.filter_eq_nil_iff.mp (earliest?_eq_none.mp hlater) other
              (mem_of_earliest? hother)
            simpa using hnone
          exact (if_neg (not_lt.mpr (hfirst.trans hlate.le))).trans h
    · rw [List.filter_cons_of_neg (by simpa using hfirst)] at h
      have hother := hrest h
      have hdue : timer.due ≤ stop := by
        simpa using (List.mem_filter.mp (mem_of_earliest? h)).2
      unfold earliest?
      rw [hother]
      exact if_pos (hdue.trans_lt (not_le.mp hfirst))

/-- A timer that runs is replaced by what is left of it. -/
theorem timers_fire {c : Clock τ Rat} {timer : Timer τ Rat} {before after : List (Timer τ Rat)}
    (htimers : c.timers = before ++ timer :: after)
    (hbefore : ∀ other ∈ before, other.number ≠ timer.number)
    (hafter : ∀ other ∈ after, other.number ≠ timer.number) :
    (c.fire timer).timers = before ++ timer.again.toList ++ after := by
  have hothers {others : List (Timer τ Rat)} (h : ∀ other ∈ others, other.number ≠ timer.number) :
      others.filterMap (fun other =>
        if other.number = timer.number then other.again else some other) = others := by
    rw [List.filterMap_congr fun other hmem => if_neg (h other hmem), List.filterMap_some]
  unfold fire
  dsimp only
  rw [htimers, List.filterMap_append, List.filterMap_cons, hothers hbefore, hothers hafter,
    if_pos rfl, List.append_assoc]
  cases timer.again <;> rfl

/-- Where nothing repeats, a timer that runs is gone, and the others are left. -/
theorem timers_fire_of_once {α : Type} [Scalar α] {c : Clock τ α} (timer : Timer τ α)
    (honce : ∀ other ∈ c.timers, other.period = none) :
    (c.fire timer).timers = c.timers.filter (·.number ≠ timer.number) := by
  rw [← List.filterMap_eq_filter]
  refine List.filterMap_congr fun other hmem => ?_
  by_cases hsame : other.number = timer.number
  · simp [hsame, Timer.again, honce other hmem, Option.guard]
  · simp [hsame, Option.guard]

/-- A timer runs at its time, or at once if it is late. -/
theorem now_fire_eq_max (c : Clock τ Rat) (timer : Timer τ Rat) :
    (c.fire timer).now = max c.now timer.due := by
  unfold fire
  dsimp only
  split
  · next hlt => exact (max_eq_right hlt.le).symm
  · next hge => exact (max_eq_left (not_lt.mp hge)).symm

theorem now_fire {c : Clock τ Rat} {timer : Timer τ Rat} (h : c.now ≤ timer.due) :
    (c.fire timer).now = timer.due :=
  (now_fire_eq_max c timer).trans (max_eq_right h)

end Clock

variable {ω : Type} [Synth ω Rat]

/-- What a stage comes to that is left to itself. -/
inductive Stage.Unfolds (s : Stage ω Rat) : Stage ω Rat → Prop where
  | start : s.Unfolds s
  /-- Time passes, and no timer is due before its end. -/
  | wait {s' : Stage ω Rat} {now : Rat} : s.Unfolds s' → s'.host.clock.now ≤ now →
      (∀ timer ∈ s'.host.clock.timers, now ≤ timer.due) →
        s.Unfolds { s' with host := { s'.host with clock := { s'.host.clock with now } } }
  | fire {s' : Stage ω Rat} {timer : Timer Alarm Rat} : s.Unfolds s' →
      Clock.earliest? s'.host.clock.timers = some timer → s.Unfolds (s'.fire timer)

namespace Stage

variable {s s' s'' : Stage ω Rat}

theorem Unfolds.trans (h : s.Unfolds s') (h' : s'.Unfolds s'') : s.Unfolds s'' := by
  induction h' with
  | start => exact h
  | wait _ hlater hdue ih => exact .wait ih hlater hdue
  | fire _ hfirst ih => exact .fire ih hfirst

theorem Unfolds.runDue (stop : Rat) : ∀ (steps : Nat) {s' : Stage ω Rat}, s.Unfolds s' →
    s.Unfolds (Clock.runDue (·.host.clock) Stage.fire stop steps s')
  | 0, _, h => h
  | steps + 1, _, h => by
    unfold Clock.runDue
    split
    · exact h
    · next timer htimer =>
      exact Unfolds.runDue stop steps (.fire h (Clock.earliest?_of_filter htimer))

/-- What is called while time passes is called by a stage that is left to itself. -/
theorem exists_unfolds_advance (s : Stage ω Rat) (milliseconds : Rat) :
    ∃ s', s.Unfolds s' ∧ (s.advance milliseconds).host.calls = s'.host.calls := by
  refine ⟨_, .runDue (s.host.clock.now + milliseconds) Clock.runLimit .start, ?_⟩
  unfold advance
  generalize Clock.runLimit = steps
  rfl

end Stage

end LeadSheet.Playback
