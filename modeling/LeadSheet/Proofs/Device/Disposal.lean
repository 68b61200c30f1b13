import LeadSheet.Proofs.Device.Selection

/-!
# After the disposal

Once a device was disposed of it is never ready again, and nothing is sent, whatever happens. Its
output is another matter: the disposal closes the port, but a call that goes on to open an output
does not ask whether the device is still there. So the output stays closed as long as no such call
was under way and none is made (`disposed_for_good`), and otherwise it comes back
(`opened_after_disposal`).
-/

namespace LeadSheet.Device

open Playback (Alarm Call Host Order Port Timer)

variable {σ α : Type}

/-- The messages that were sent, in order, each with its port. -/
def sent (calls : List (Call α)) : List (Port × List UInt8) :=
  calls.filterMap fun
    | .send port message => some (port, message)
    | _ => none

/-! ## What is sent and opened -/

section

variable {h h' : Host (Device σ α) α}

theorem Idle.sent_eq (hidle : Idle h h') : sent h'.calls = sent h.calls := by
  obtain ⟨more, hcalls, hmore⟩ := hidle.calls
  have hnone : sent more = [] := List.filterMap_eq_nil_iff.mpr fun call hmem => by
    rcases hmore call hmem with rfl | ⟨index, rfl⟩ <;> rfl
  rw [hcalls]
  exact List.filterMap_append.trans (by rw [← sent, ← sent, hnone, List.append_nil])

theorem Idle.opened_eq (hidle : Idle h h') : opened h'.calls = opened h.calls := by
  obtain ⟨more, hcalls, hmore⟩ := hidle.calls
  have hnone : opened more = [] := List.filterMap_eq_nil_iff.mpr fun call hmem => by
    rcases hmore call hmem with rfl | ⟨index, rfl⟩ <;> rfl
  rw [hcalls, opened_append, hnone, List.append_nil]

/-- No output is opened, or selected, or given up. -/
structure Untouched (h h' : Host (Device σ α) α) : Prop where
  output : h'.synth.output = h.synth.output
  selected : h'.synth.selected = h.synth.selected
  opened : opened h'.calls = opened h.calls
  initialized : h.synth.initialized = true → h'.synth.initialized = true

theorem Untouched.refl (h : Host (Device σ α) α) : Untouched h h := ⟨rfl, rfl, rfl, id⟩

theorem Untouched.trans {h'' : Host (Device σ α) α} (hfirst : Untouched h h')
    (hthen : Untouched h' h'') : Untouched h h'' where
  output := hthen.output.trans hfirst.output
  selected := hthen.selected.trans hfirst.selected
  opened := hthen.opened.trans hfirst.opened
  initialized hinit := hthen.initialized (hfirst.initialized hinit)

theorem Idle.untouched (hidle : Idle h h') : Untouched h h' :=
  ⟨hidle.output, hidle.selected, hidle.opened_eq, hidle.initialized⟩

theorem Opens.sent_eq {info : OutputInfo} {port : Port} (hopens : Opens info port h h') :
    sent h'.calls = sent h.calls := by
  rw [hopens.calls]
  simp [sent, closing]

variable [Hardware σ]

theorem disposed_dispose (h : Host (Device σ α) α) : (dispose h).synth.disposed = true := by
  cases halive : h.synth.disposed with
  | true => rwa [dispose, if_pos halive]
  | false =>
    rw [dispose, if_neg (by simp [halive])]
    rfl

variable [Scalar α]

/-- A device that was disposed of takes no orders. -/
theorem obey_of_disposed (order : Order α) (hdisposed : h.synth.disposed = true) :
    obey order h = h := by
  cases order with
  | setup setup => exact if_pos hdisposed
  | schedule event seconds => exact if_pos (by rw [hdisposed]; rfl)
  | cancelAll => exact if_pos hdisposed
  | dispose => exact if_pos hdisposed

theorem calls_fire_of_disposed (timer : Timer Alarm α) (hdisposed : h.synth.disposed = true) :
    (fire timer h).calls = h.calls := by
  unfold fire
  dsimp only
  split
  · unfold deliver
    dsimp only
    rw [if_pos (by exact hdisposed)]
    rfl
  · rfl

/-- Of the device, a timer that runs changes nothing but what it knows to wait, and the hardware. -/
theorem synth_fire (timer : Timer Alarm α) (h : Host (Device σ α) α) : ∃ pending hardware,
    (fire timer h).synth = { h.synth with pending, hardware } := by
  unfold fire
  dsimp only
  split
  · unfold deliver
    dsimp only
    split
    · exact ⟨_, _, rfl⟩
    · obtain ⟨hardware, hsent⟩ := synth_send (update { h with clock := h.clock.fire timer }
        fun d => { d with pending := d.pending.filter (· ≠ timer.number) }) _
      exact ⟨_, hardware, hsent⟩
  · exact ⟨_, _, rfl⟩

/-- Of the device, an order changes nothing but what it knows to wait, and the hardware, unless it
is the disposal. -/
theorem synth_obey {order : Order α} (hstays : order ≠ .dispose) (h : Host (Device σ α) α) :
    ∃ pending hardware, (obey order h).synth = { h.synth with pending, hardware } := by
  cases order with
  | setup setup =>
    unfold obey Device.setup
    dsimp only
    split
    · exact ⟨_, _, rfl⟩
    · obtain ⟨hardware, hsent⟩ := synth_sendAll h (setupMessages setup)
      exact ⟨_, hardware, hsent⟩
  | schedule event seconds =>
    unfold obey schedule
    dsimp only
    split <;> exact ⟨_, _, rfl⟩
  | cancelAll =>
    change ∃ pending hardware, (cancelAll h).synth = _
    cases halive : h.synth.disposed with
    | true =>
      rw [cancelAll, if_pos halive]
      exact ⟨_, _, rfl⟩
    | false =>
      obtain ⟨hardware, hsent⟩ := synth_sendAll (dropPending h) silence
      rw [cancelAll_of_alive halive, hsent]
      exact ⟨_, hardware, rfl⟩
  | dispose => exact absurd rfl hstays

/-- Only the disposal disposes of a device. -/
theorem disposed_obey (order : Order α) (h : Host (Device σ α) α) :
    (obey order h).synth.disposed = true ↔ h.synth.disposed = true ∨ order = .dispose := by
  by_cases hdispose : order = .dispose
  · subst hdispose
    simp [obey, disposed_dispose]
  · obtain ⟨pending, hardware, hobeyed⟩ := synth_obey hdispose h
    simp [hobeyed, hdispose]

end

namespace Usage

variable [Scalar α] [Hardware σ] {u : Usage σ α}

/-! ## The disposal -/

theorem disposed_take (u : Usage σ α) (turn : Turn α) :
    (u.take turn).host.synth.disposed = true ↔
      u.host.synth.disposed = true ∨ turn = .order .dispose := by
  cases u.happening turn with
  | idle hcalled hidle => simp [hidle.disposed, hcalled .dispose]
  | opens hcalled info port hopens => simp [hopens.disposed, hcalled .dispose]
  | obeys order hturn hhost =>
    rw [hhost, hturn, Turn.order.injEq]
    exact disposed_obey order u.host
  | passes milliseconds hturn hhost =>
    rw [hhost]
    simp [hturn]
  | fires timer hturn _ hhost =>
    obtain ⟨pending, hardware, hfired⟩ := synth_fire timer u.host
    rw [hhost, hfired]
    simp [hturn]

theorem disposed_run (u : Usage σ α) (turns : List (Turn α)) :
    (u.run turns).host.synth.disposed = true ↔
      u.host.synth.disposed = true ∨ .order .dispose ∈ turns := by
  induction turns generalizing u with
  | nil => simp
  | cons turn rest ih =>
    rw [run_cons, ih, disposed_take, List.mem_cons, or_assoc]
    exact or_congr_right (or_congr_left eq_comm)

/-- Nothing is sent behind the disposal. -/
theorem sent_take (hdisposed : u.host.synth.disposed = true) (turn : Turn α) :
    sent (u.take turn).host.calls = sent u.host.calls := by
  cases u.happening turn with
  | idle _ hidle => exact hidle.sent_eq
  | opens _ _ _ hopens => exact hopens.sent_eq
  | obeys order _ hhost => rw [hhost, obey_of_disposed order hdisposed]
  | passes _ _ hhost => rw [hhost]
  | fires timer _ _ hhost => rw [hhost, calls_fire_of_disposed timer hdisposed]

theorem sent_run (hdisposed : u.host.synth.disposed = true) (turns : List (Turn α)) :
    sent (u.run turns).host.calls = sent u.host.calls := by
  induction turns generalizing u with
  | nil => rfl
  | cons turn rest ih =>
    exact (ih ((u.disposed_take turn).mpr (.inl hdisposed))).trans (sent_take hdisposed turn)

/-! ## No selection -/

/-- Nothing is under way, or is asked for, that opens outputs: no output is to be selected, and
there is no initialization but of a device that is initialized already. -/
structure SelectsNothing (u : Usage σ α) (turns : List (Turn α)) : Prop where
  waiting : ∀ e ∈ u.errands, e.task.result? = none → e.request = .listOutputs
  asked : ∀ request, .call request ∈ turns →
    request = .listOutputs ∨ request = .start ∧ u.host.synth.initialized = true

omit [Scalar α] in
/-- With a call that has ended, or asks for a list, nothing is selected. -/
theorem idle_step {e : Errand} (hfits : e.Fits)
    (hlists : e.task.result? = none → e.request = .listOutputs) (h : Host (Device σ α) α) :
    Idle h (e.task.step h).2 := by
  have hcarries {goal : Goal} {engine? : Option Engine} (htask : e.task = .equipped goal engine?) :
      goal.request = .listOutputs := by
    rw [Errand.Fits, htask, hlists (by rw [htask]; rfl)] at hfits
    rcases hfits with hnone | hsome
    · cases hnone
    · exact Option.some.inj hsome
  rcases e.task.step_cases h with hidle | ⟨-, ⟨id, engine?, htask, -⟩ | ⟨first, engine?, htask, -⟩⟩
  · exact hidle
  · cases hcarries htask
  · cases hcarries htask

/-- The output of a device that was disposed of stays as it is for another turn. -/
theorem SelectsNothing.untouched {turn : Turn α} {rest : List (Turn α)}
    (hs : u.SelectsNothing (turn :: rest)) (hfits : ∀ e ∈ u.errands, e.Fits)
    (hdisposed : u.host.synth.disposed = true) : Untouched u.host (u.take turn).host := by
  cases turn with
  | call request => exact (idle_ofRequest request u.host).untouched
  | resume number =>
    cases herrand : u.errands[number]? with
    | none =>
      rw [take_resume_of_none herrand]
      exact .refl u.host
    | some errand =>
      have hmem := List.mem_of_getElem? herrand
      rw [take_resume herrand]
      exact (idle_step (hfits errand hmem) (hs.waiting errand hmem) u.host).untouched
  | order order =>
    change Untouched u.host (obey order u.host)
    rw [obey_of_disposed order hdisposed]
    exact .refl u.host
  | pass milliseconds => exact ⟨rfl, rfl, rfl, id⟩
  | ring =>
    cases hnext : u.next? with
    | none =>
      rw [take_ring_of_none hnext]
      exact .refl u.host
    | some timer =>
      obtain ⟨pending, hardware, hfired⟩ := synth_fire timer u.host
      rw [take_ring hnext]
      exact ⟨by rw [hfired], by rw [hfired],
        congrArg opened (calls_fire_of_disposed timer hdisposed), by rw [hfired]; exact id⟩

/-- And nothing that opens outputs is under way behind the turn. -/
theorem SelectsNothing.take {turn : Turn α} {rest : List (Turn α)}
    (hs : u.SelectsNothing (turn :: rest)) (hfits : ∀ e ∈ u.errands, e.Fits)
    (hdisposed : u.host.synth.disposed = true) : (u.take turn).SelectsNothing rest where
  waiting := by
    cases turn with
    | call request =>
      refine List.forall_mem_append.mpr ⟨hs.waiting, fun e hmem hnone => ?_⟩
      obtain rfl := List.mem_singleton.mp hmem
      rcases hs.asked request List.mem_cons_self with rfl | ⟨rfl, hinit⟩
      · rfl
      · -- there is nothing left to initialize, and so the call has ended
        change (Task.ofRequest .start u.host).1.result? = none at hnone
        unfold Task.ofRequest at hnone
        dsimp only at hnone
        rw [if_pos hinit] at hnone
        cases hnone
    | resume number =>
      cases herrand : u.errands[number]? with
      | none =>
        rw [take_resume_of_none herrand]
        exact hs.waiting
      | some errand =>
        intro e he hnone
        rw [take_resume herrand] at he
        rcases List.mem_or_eq_of_mem_set he with hold | rfl
        · exact hs.waiting e hold hnone
        · refine hs.waiting errand (List.mem_of_getElem? herrand)
            (Option.eq_none_iff_forall_not_mem.mpr fun result hended => ?_)
          -- a call that has ended does not go on
          cases htask : errand.task <;> rw [htask] at hended hnone <;> cases hended
          cases hnone
    | order order => exact hs.waiting
    | pass milliseconds => exact hs.waiting
    | ring =>
      rw [errands_take_ring]
      exact hs.waiting
  asked request hmem := (hs.asked request (List.mem_cons_of_mem _ hmem)).imp_right
    fun ⟨hstart, hinit⟩ => ⟨hstart, (hs.untouched hfits hdisposed).initialized hinit⟩

theorem SelectsNothing.run {turns : List (Turn α)} (hs : u.SelectsNothing turns)
    (hfits : ∀ e ∈ u.errands, e.Fits) (hdisposed : u.host.synth.disposed = true) :
    Untouched u.host (u.run turns).host := by
  induction turns generalizing u with
  | nil => exact .refl u.host
  | cons turn rest ih =>
    have hlater := (u.disposed_take turn).mpr (.inl hdisposed)
    exact (hs.untouched hfits hdisposed).trans
      (ih (hs.take hfits hdisposed) (fits_take hfits turn) hlater)

end Usage

/-! ## Every run -/

variable [Scalar α] [Hardware σ]

omit [Scalar α] in
/-- The disposal closes the port. -/
theorem output_dispose {h : Host (Device σ α) α} (halive : h.synth.disposed = false) :
    (dispose h).synth.output = none := by
  rw [dispose, if_neg (by simp [halive])]
  change (closeOutput (cancelAll h)).synth.output = none
  unfold closeOutput
  split
  · assumption
  · rfl

/-- **What a disposal puts an end to.** Whatever was going on and whatever comes, a device that was
disposed of is not ready and sends nothing. If moreover it is the first disposal, and no call that
opens outputs was under way or is made, then no output is opened, none is current and none is
selected, ever again. -/
theorem disposed_for_good (now : α) (hardware : σ) (before after : List (Turn α)) :
    let disposed := (Usage.made now hardware).run (before ++ [.order .dispose])
    let u := disposed.run after
    isReady u.host = false ∧ sent u.host.calls = sent disposed.host.calls ∧
      (.order .dispose ∉ before → disposed.SelectsNothing after →
        opened u.host.calls = opened disposed.host.calls ∧ u.host.synth.output = none ∧
          u.host.synth.selected = none) := by
  intro disposed u
  have hdisposed : disposed.host.synth.disposed = true :=
    (Usage.disposed_run _ _).mpr (.inr (List.mem_append_right _ (List.mem_singleton_self _)))
  have hstays : u.host.synth.disposed = true := (disposed.disposed_run after).mpr (.inl hdisposed)
  refine ⟨by simp [isReady, hstays], Usage.sent_run hdisposed after, fun hfirst hs => ?_⟩
  have hrun : disposed
      = ((Usage.made now hardware).run before).take (.order .dispose) := Usage.run_append _ _ _
  have halive : ((Usage.made now hardware).run before).host.synth.disposed = false := by
    refine Bool.eq_false_iff.mpr fun h => ?_
    rcases (Usage.disposed_run _ _).mp h with hmade | hmem
    · cases hmade
    · exact hfirst hmem
  have hclosed : disposed.host.synth.output = none := by
    rw [hrun]
    exact output_dispose halive
  have hselected : disposed.host.synth.selected = none :=
    (Usage.selected_eq_none_iff now hardware _).mpr hclosed
  have hsame := hs.run (Usage.fits_run now hardware _) hdisposed
  exact ⟨hsame.opened, hsame.output.trans hclosed, hsame.selected.trans hselected⟩

/-- A device is initialized, and then a list of outputs is asked for. -/
def listing : List (Turn Rat) :=
  .call .start :: List.replicate 5 (.resume 0) ++ [.call .listOutputs]

/-- The list comes, another one is asked for and comes, and the device is to be initialized once
more. -/
def listingOn : List (Turn Rat) :=
  [.resume 1, .call .listOutputs, .call .start, .resume 2, .resume 2]

/-- A list that was asked for comes also behind the disposal, and nothing else does. -/
theorem disposed_for_good_listing :
    let disposed := (Usage.made (0 : Rat) brokenSecond).run (listing ++ [.order .dispose])
    let u := disposed.run listingOn
    opened disposed.host.calls = [⟨0, 0⟩] ∧ disposed.SelectsNothing listingOn ∧
      isReady u.host = false ∧ sent u.host.calls = sent disposed.host.calls ∧
      opened u.host.calls = opened disposed.host.calls ∧ u.host.synth.output = none ∧
      u.host.synth.selected = none := by
  have hs : ((Usage.made (0 : Rat) brokenSecond).run
      (listing ++ [.order .dispose])).SelectsNothing listingOn := by
    refine ⟨by decide +kernel, fun request hmem => ?_⟩
    have hrequest : request = .listOutputs ∨ request = .start := by
      simpa [listingOn] using hmem
    exact hrequest.imp_right fun hstart => ⟨hstart, by decide +kernel⟩
  obtain ⟨hready, hsent, hclosed⟩ := disposed_for_good (0 : Rat) brokenSecond listing listingOn
  exact ⟨by decide +kernel, hs, hready, hsent, hclosed (by decide) hs⟩

/-- **A call opens an output of a device that was disposed of.** An initialization does that is
asked for behind the disposal, and so does one that was waiting for the engine at the time. -/
theorem opened_after_disposal :
    let asked : List (Turn Rat) := .call .start :: List.replicate 5 (.resume 0)
    let late := (Usage.made (0 : Rat) brokenSecond).run (.order .dispose :: asked)
    let waiting := (Usage.made (0 : Rat) brokenSecond).run
      (.call .start :: .order .dispose :: List.replicate 5 (.resume 0))
    (late.host.synth.disposed = true ∧ opened late.host.calls = [⟨0, 0⟩] ∧
        late.host.synth.output = some ⟨0, 0⟩ ∧ late.host.synth.selected.isSome = true) ∧
      waiting.host.synth.disposed = true ∧ opened waiting.host.calls = [⟨0, 0⟩] ∧
      waiting.host.synth.output = some ⟨0, 0⟩ ∧ waiting.host.synth.selected.isSome = true := by
  decide +kernel

end LeadSheet.Device
