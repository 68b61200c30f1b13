import LeadSheet.Playback.Stage
import LeadSheet.Proofs.Device.Quiet

/-!
# A player with an observer

An `Observer` is a synthesizer of any clock that makes no sound, and notes down with each order how
many loops are alive. What is carried along on a stage with an observer is a `Course`: from a stage
on which a loop is alive or is not, to another one. A course says which calls were made on the way,
and keeps the books on stretches of playing: one that is begun and is not going on any more has
ended, and the listener was told so, unless the user broke it off. Courses go one after the other
(`Course.trans`), so that a lemma for each thing a stage does is enough; here are those for commands
and for the listener.
-/

namespace LeadSheet.Playback

/-! ## An observer -/

/-- An order, and how many loops were alive when it was given. -/
structure Heard (α : Type) where
  loops : Nat
  order : Order α

/-- A synthesizer that makes no sound and notes down all that it hears. -/
structure Observer (α : Type) where
  /-- What its clock shows at a time in milliseconds. -/
  shows : α → α
  heard : List (Heard α)

variable {α : Type}

/-- How many loops are alive. -/
def Clock.loops (c : Clock Alarm α) : Nat := c.timers.countP (·.action = .loop)

instance : Synth (Observer α) α where
  time h := h.synth.shows h.clock.now
  obey order h :=
    let heard := h.synth.heard ++ [⟨h.clock.loops, order⟩]
    { h.record (.order order) with synth := { h.synth with heard } }
  deliver _ _ h := h

/-! ## Calls -/

/-- Whether the listener is told of an end. -/
def Call.isEnded : Call α → Bool
  | .ended => true
  | _ => false

/-- How often the listener is told of an end. -/
def endings (calls : List (Call α)) : Nat := calls.countP Call.isEnded

/-- Nothing is handed over. -/
def Unscheduled (calls : List (Call α)) : Prop :=
  ∀ event time, .order (.schedule event time) ∉ calls

/-- The synthesizer is silenced, and nothing is handed over behind that. -/
def Silenced (calls : List (Call α)) : Prop :=
  ∃ before after, calls = before ++ .order .cancelAll :: after ∧ Unscheduled after

/-- Wherever the listener is told of an end, the synthesizer has been silenced just before. -/
def ToldInSilence (calls : List (Call α)) : Prop :=
  ∀ before after, calls = before ++ .ended :: after → before.getLast? = some (.order .cancelAll)

theorem Unscheduled.append {calls more : List (Call α)} (h : Unscheduled calls)
    (h' : Unscheduled more) : Unscheduled (calls ++ more) := by
  intro event time hmem
  rcases List.mem_append.mp hmem with hold | hnew
  · exact h event time hold
  · exact h' event time hnew

theorem Silenced.append_left {more : List (Call α)} (calls : List (Call α)) (h : Silenced more) :
    Silenced (calls ++ more) := by
  obtain ⟨before, after, rfl, hafter⟩ := h
  exact ⟨calls ++ before, after, (List.append_assoc ..).symm, hafter⟩

theorem Silenced.append {calls more : List (Call α)} (h : Silenced calls)
    (h' : Unscheduled more) : Silenced (calls ++ more) := by
  obtain ⟨before, after, rfl, hafter⟩ := h
  exact ⟨before, after ++ more, by simp, hafter.append h'⟩

/-- Calls among which the listener is told nothing keep what he was told in silence. -/
theorem ToldInSilence.append {calls more : List (Call α)} (h : ToldInSilence calls)
    (hmore : .ended ∉ more) : ToldInSilence (calls ++ more) := by
  intro before after hsplit
  obtain ⟨rest, hcalls, -⟩ := Device.exists_of_append_eq hsplit hmore
  exact h before rest hcalls

theorem ToldInSilence.tell {calls : List (Call α)} (h : ToldInSilence calls)
    (hlast : calls.getLast? = some (.order .cancelAll)) : ToldInSilence (calls ++ [.ended]) := by
  intro before after hsplit
  -- the listener is told now, or was told before
  rcases List.eq_nil_or_concat after with rfl | ⟨rest, last, rfl⟩
  · obtain rfl := List.append_inj_left' hsplit rfl
    exact hlast
  · rw [List.concat_eq_append, ← List.cons_append, ← List.append_assoc] at hsplit
    exact h before rest (List.append_inj_left' hsplit rfl)

section

variable {given : List (Order α)}

theorem endings_orders (given : List (Order α)) : endings (given.map .order) = 0 := by
  rw [endings, List.countP_map]
  exact List.countP_eq_zero.mpr fun _ _ => Bool.false_ne_true

theorem unscheduled_orders (hgiven : ∀ event time, .schedule event time ∉ given) :
    Unscheduled (given.map .order) := by
  intro event time hmem
  obtain ⟨order, horder, heq⟩ := List.mem_map.mp hmem
  exact hgiven event time (Call.order.inj heq ▸ horder)

theorem silenced_orders (hgiven : ∀ event time, .schedule event time ∉ given)
    (hsilence : .cancelAll ∈ given) : Silenced (given.map .order) := by
  obtain ⟨before, after, rfl⟩ := List.append_of_mem hsilence
  refine ⟨before.map .order, after.map .order, by simp,
    unscheduled_orders fun event time hmem => ?_⟩
  exact hgiven event time (List.mem_append_right before (List.mem_cons_of_mem _ hmem))

end

/-! ## Courses -/

/-- How often a listener will still play. -/
def Listener.plays : Listener → Nat
  | .replaying times => times
  | _ => 0

/-- A loop is alive, or there is none, and all was well so far. -/
structure Stage.Orderly (looping : Bool) (s : Stage (Observer α) α) : Prop where
  alive : looping = true → ∃ timer, s.host.clock.timers = [timer] ∧ timer.action = .loop ∧
    timer.period ≠ none ∧ s.loop = some timer.number
  idle : looping = false → s.host.clock.timers = [] ∧ s.loop = none
  heard : ∀ heard ∈ s.host.synth.heard, ∀ event time, heard.order = .schedule event time →
    heard.loops = 1
  told : ToldInSilence s.host.calls

/-- What lies between two stages. Where nothing is going on at the end, the synthesizer was silenced
last, unless nothing was ever going on. The stretches of playing that were begun have ended or are
going on; `net` of them were begun by the user, if he did not break any off. -/
structure Course (net : Int) (looping : Bool) (s : Stage (Observer α) α) (looping' : Bool)
    (s' : Stage (Observer α) α) : Prop where
  orderly : s'.Orderly looping'
  listens : s'.listener = .absent ↔ s.listener = .absent
  plays_le : s'.listener.plays ≤ s.listener.plays
  calls : ∃ more, s'.host.calls = s.host.calls ++ more ∧
    (looping' = false → Silenced more ∨ looping = false ∧ Unscheduled more) ∧
    (s.listener ≠ .absent → (endings more : Int) + looping'.toNat + s'.listener.plays
      = looping.toNat + s.listener.plays + net)

namespace Course

variable {net net' : Int} {looping looping' looping'' : Bool} {s s' s'' : Stage (Observer α) α}

theorem trans (h : Course net looping s looping' s') (h' : Course net' looping' s' looping'' s'') :
    Course (net + net') looping s looping'' s'' := by
  obtain ⟨more, hcalls, hquiet, hbooks⟩ := h.calls
  obtain ⟨more', hcalls', hquiet', hbooks'⟩ := h'.calls
  refine ⟨h'.orderly, h'.listens.trans h.listens, Nat.le_trans h'.plays_le h.plays_le,
    more ++ more', ?_, fun hidle => ?_, fun hthere => ?_⟩
  · rw [hcalls', hcalls, List.append_assoc]
  · -- the last silence is of the second course, or of the first one if nothing went on in between
    rcases hquiet' hidle with hsilenced | ⟨hbetween, hnone⟩
    · exact .inl (hsilenced.append_left more)
    · rcases hquiet hbetween with hsilenced | ⟨hbefore, hnone'⟩
      · exact .inl (hsilenced.append hnone)
      · exact .inr ⟨hbefore, hnone'.append hnone⟩
  · have hfirst := hbooks hthere
    have hsecond := hbooks' fun habsent => hthere (h.listens.mp habsent)
    simp only [endings, List.countP_append] at hfirst hsecond ⊢
    omega

theorem of_net (h : Course net looping s looping' s') (hnet : net = net') :
    Course net' looping s looping' s' :=
  hnet ▸ h

theorem trans_zero (h : Course net looping s looping' s')
    (h' : Course 0 looping' s' looping'' s'') : Course net looping s looping'' s'' :=
  (h.trans h').of_net (Int.add_zero net)

/-- The books are of a listener's, and do not matter where there is none. -/
theorem of_absent (h : Course net looping s looping' s') (habsent : s.listener = .absent) :
    Course net' looping s looping' s' := by
  obtain ⟨more, hcalls, hquiet, -⟩ := h.calls
  exact ⟨h.orderly, h.listens, h.plays_le, more, hcalls, hquiet,
    fun hthere => absurd habsent hthere⟩

end Course

namespace Stage.Orderly

variable {looping : Bool} {s : Stage (Observer α) α} (h : s.Orderly looping)

include h

/-! ## What changes nothing -/

theorem unchanged {s' : Stage (Observer α) α} (htimers : s'.host.clock.timers = s.host.clock.timers)
    (hloop : s'.loop = s.loop) (hheard : s'.host.synth.heard = s.host.synth.heard)
    (hcalls : s'.host.calls = s.host.calls) (hlistener : s'.listener = s.listener) :
    Course 0 looping s looping s' where
  orderly := by
    refine ⟨?_, ?_, ?_, ?_⟩
    · rw [htimers, hloop]
      exact h.alive
    · rw [htimers, hloop]
      exact h.idle
    · rw [hheard]
      exact h.heard
    · rw [hcalls]
      exact h.told
  listens := by rw [hlistener]
  plays_le := Nat.le_of_eq (by rw [hlistener])
  calls := by
    refine ⟨[], by rw [hcalls, List.append_nil], fun hidle => .inr ⟨hidle, ?_⟩, fun _ => ?_⟩
    · exact fun _ _ => List.not_mem_nil
    · rw [hlistener]
      simp [endings]

theorem withPlayer (player : Player α) : Course 0 looping s looping { s with player } :=
  h.unchanged rfl rfl rfl rfl rfl

theorem withTime (now : α) :
    Course 0 looping s looping
      { s with host := { s.host with clock := { s.host.clock with now } } } :=
  h.unchanged rfl rfl rfl rfl rfl

/-! ## Orders -/

theorem loops_eq : s.host.clock.loops = looping.toNat := by
  cases looping with
  | false => simp [Clock.loops, (h.idle rfl).1]
  | true =>
    obtain ⟨timer, htimers, haction, -⟩ := h.alive rfl
    simp [Clock.loops, htimers, haction]

end Stage.Orderly

section

variable [Scalar α]

/-- An observer notes down what it is ordered, and that is all. -/
theorem foldl_perform_orders (given : List (Order α)) (s : Stage (Observer α) α) :
    (given.map Command.order).foldl Stage.perform s
      = { s with host := { s.host with
          calls := s.host.calls ++ given.map .order
          synth := { s.host.synth with
            heard := s.host.synth.heard ++ given.map (⟨s.host.clock.loops, ·⟩) } } } := by
  induction given generalizing s with
  | nil => simp
  | cons order rest ih =>
    rw [List.map_cons, List.foldl_cons, ih]
    simp [Stage.perform, Synth.obey, Host.record]

namespace Stage.Orderly

variable {looping : Bool} {s : Stage (Observer α) α}

/-- Orders leave everything in order, if nothing is handed over without a loop. -/
theorem orders (h : s.Orderly looping) (given : List (Order α))
    (hgiven : looping = false → ∀ event time, .schedule event time ∉ given) :
    Course 0 looping s looping ((given.map Command.order).foldl perform s) := by
  rw [foldl_perform_orders]
  refine ⟨⟨h.alive, h.idle, fun heard hmem event time hschedule => ?_, h.told.append (by simp)⟩,
    Iff.rfl, Nat.le_refl _, given.map .order, rfl,
    fun hidle => .inr ⟨hidle, unscheduled_orders (hgiven hidle)⟩, fun _ => ?_⟩
  · rcases List.mem_append.mp hmem with hold | hnew
    · exact h.heard heard hold event time hschedule
    · obtain ⟨order, horder, rfl⟩ := List.mem_map.mp hnew
      obtain rfl : order = .schedule event time := hschedule
      -- an event is handed over, so there is a loop
      cases looping with
      | false => exact absurd horder (hgiven rfl event time)
      | true => exact h.loops_eq
  · rw [endings_orders]
    simp

/-- A loop is started. -/
theorem startLoop (h : s.Orderly false) (period : α) :
    Course 1 false s true (s.startLoop period) where
  orderly := by
    obtain ⟨htimers, -⟩ := h.idle rfl
    refine ⟨fun _ => ?_, fun hidle => Bool.noConfusion hidle, h.heard, h.told⟩
    refine ⟨⟨s.host.clock.started, s.host.clock.now + period, some period, .loop⟩, ?_, rfl, ?_, rfl⟩
    · simp [Stage.startLoop, Clock.startEvery, Clock.start, htimers]
    · exact Option.some_ne_none period
  listens := Iff.rfl
  plays_le := Nat.le_refl _
  calls := by
    refine ⟨[], (List.append_nil _).symm, fun hidle => Bool.noConfusion hidle, fun _ => ?_⟩
    change ((0 : Nat) : Int) + (1 : Nat) + s.listener.plays = (0 : Nat) + s.listener.plays + 1
    omega

omit [Scalar α] in
/-- Stopping the loop leaves no timer, whether there was one or not. -/
theorem stopLoop (h : s.Orderly looping) :
    s.stopLoop.Orderly false ∧ s.stopLoop.host.calls = s.host.calls ∧
      s.stopLoop.listener = s.listener := by
  unfold Stage.stopLoop
  cases looping with
  | false =>
    rw [(h.idle rfl).2]
    exact ⟨h, rfl, rfl⟩
  | true =>
    obtain ⟨timer, htimers, -, -, hloop⟩ := h.alive rfl
    rw [hloop]
    refine ⟨⟨fun halive => Bool.noConfusion halive, fun _ => ⟨?_, rfl⟩, h.heard, h.told⟩, rfl, rfl⟩
    simp [Clock.cancel, htimers]

/-- The loop is stopped. If one was alive, the synthesizer is silenced, and nothing is handed over
any more. -/
theorem halt (h : s.Orderly looping) (given : List (Order α))
    (hgiven : ∀ event time, .schedule event time ∉ given)
    (hsilence : looping = true → .cancelAll ∈ given) :
    Course (-looping.toNat) looping s false
      ((.stopLoop :: given.map Command.order).foldl perform s) := by
  obtain ⟨hstopped, hcalls, hlistener⟩ := h.stopLoop
  have hcourse := hstopped.orders given fun _ => hgiven
  change Course _ _ _ _ ((given.map Command.order).foldl perform s.stopLoop)
  rw [foldl_perform_orders] at hcourse ⊢
  refine ⟨hcourse.orderly, by simp [hlistener], by simp [hlistener], given.map .order,
    by simp [hcalls], fun _ => ?_, fun _ => ?_⟩
  · cases looping with
    | false => exact .inr ⟨rfl, unscheduled_orders hgiven⟩
    | true => exact .inl (silenced_orders hgiven (hsilence rfl))
  · rw [endings_orders, hlistener, Bool.toNat_false]
    omega

/-! ## The listener -/

omit [Scalar α] in
/-- The listener is told of an end once the synthesizer was silenced. -/
theorem tell (h : s.Orderly looping)
    (hlast : s.host.calls.getLast? = some (.order .cancelAll)) :
    Course 1 looping s looping s.noteEnd where
  orderly := ⟨h.alive, h.idle, h.heard, h.told.tell hlast⟩
  listens := Iff.rfl
  plays_le := Nat.le_refl _
  calls := by
    refine ⟨[.ended], rfl, fun hidle => .inr ⟨hidle, by simp [Unscheduled]⟩, fun _ => ?_⟩
    change ((1 : Nat) : Int) + looping.toNat + s.listener.plays = _
    omega

omit [Scalar α] in
theorem relisten (h : s.Orderly looping) {times left : Nat}
    (hlistener : s.listener = .replaying times) (hleft : left ≤ times) :
    Course (left - times) looping s looping { s with listener := .replaying left } where
  orderly := ⟨h.alive, h.idle, h.heard, h.told⟩
  listens := by simp [hlistener]
  plays_le := by rwa [hlistener]
  calls := by
    refine ⟨[], (List.append_nil _).symm, fun hidle => .inr ⟨hidle, ?_⟩, fun _ => ?_⟩
    · exact fun _ _ => List.not_mem_nil
    · simp only [endings, List.countP_nil, hlistener, Listener.plays]
      omega

end Stage.Orderly

end

end LeadSheet.Playback
