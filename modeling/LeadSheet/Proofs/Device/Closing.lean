import LeadSheet.Proofs.Device.Disposal

/-!
# Notes on a port that is closed

A port is closed by the disposal of its device, or because another output is selected. The disposal
silences all channels first, so that no note sounds on (`released_at_closing`). A selection does
not, and so a note may go on sounding on a port that nothing can be sent to any more
(`closed_while_sounding`). This does not happen if all channels were silenced beforehand and no
timer has run since.
-/

namespace LeadSheet.Device

open Playback (Alarm Call Host Order Port Timer)

variable {σ α : Type}

/-! ## Notes on a port -/

/-- Wherever a note was started on a port, it was ended there afterwards, or its channel was
silenced. -/
def Released (port : Port) (calls : List (Call α)) : Prop :=
  ∀ before after channel pitch velocity,
    calls = before ++ .send port (Midi.noteOn channel pitch velocity) :: after →
      silencing port channel ∈ after ∨
        ∃ velocity', .send port (Midi.noteOff channel pitch velocity') ∈ after

section

variable {calls more : List (Call α)} {port : Port}

theorem startsNote_noteOn (port : Port) (channel pitch velocity : Int) :
    StartsNote (α := α) port channel (.send port (Midi.noteOn channel pitch velocity)) :=
  ⟨_, rfl⟩

/-- Calls that start no note leave released what was released. -/
theorem Released.append (h : Released port calls) (hmore : ∀ call ∈ more, ¬SoundsNote call) :
    Released port (calls ++ more) := by
  intro before after channel pitch velocity hsplit
  obtain ⟨rest, hcalls, rfl⟩ := exists_of_append_eq hsplit fun hmem =>
    hmore _ hmem (startsNote_noteOn port channel pitch velocity).soundsNote
  exact (h before rest channel pitch velocity hcalls).imp (List.mem_append_left _)
    fun ⟨velocity', hmem⟩ => ⟨velocity', List.mem_append_left _ hmem⟩

theorem released_append_silence (calls : List (Call α)) (port : Port) :
    Released port (calls ++ silence.map (.send port)) := fun _ _ channel pitch velocity hsplit =>
  .inl (of_append_silence hsplit (startsNote_noteOn port channel pitch velocity)).2

/-- A call among two lists of calls stands in the first, or in the second behind all of the
first. -/
theorem split_append {before after : List (Call α)} {call : Call α}
    (h : calls ++ more = before ++ call :: after) :
    (∃ rest, calls = before ++ call :: rest) ∨
      ∃ behind, before = calls ++ behind ∧ more = behind ++ call :: after := by
  obtain ⟨behind, hbefore, hmore⟩ | ⟨rest, hcalls, hrest⟩ := List.append_eq_append_iff.mp h
  · exact .inr ⟨behind, hbefore, hmore⟩
  · cases rest with
    | nil => exact .inr ⟨[], by simpa using hcalls.symm, by simpa using hrest.symm⟩
    | cons first rest =>
      obtain ⟨rfl, -⟩ := List.cons.inj hrest
      exact .inl ⟨rest, hcalls⟩

end

/-! ## Closings -/

/-- Wherever a port was closed, and not for another output that was opened, nothing sounded on it
any more. -/
def ClosedInSilence (calls : List (Call α)) : Prop :=
  ∀ before port after, calls = before ++ .close port :: after →
    (∀ index other, before.getLast? ≠ some (.openOutput index (some other))) →
      Released port before

/-- **No turn closes a port on which a note sounds**, unless it opens another output. -/
theorem Effect.closedInSilence {h h' : Host (Device σ α) α} (he : Effect h h')
    (hclosed : ClosedInSilence h.calls) : ClosedInSilence h'.calls := by
  cases he with
  | stays more hcalls hsent _ _ =>
    rw [hcalls]
    intro before port after hsplit hcause
    rcases split_append hsplit with ⟨rest, hold⟩ | ⟨behind, -, hmore⟩
    · exact hclosed before port rest hold hcause
    · -- nothing is closed in such a turn
      have hmem : Call.close port ∈ more := by
        rw [hmore]
        exact List.mem_append_right _ List.mem_cons_self
      rcases hsent _ hmem with (hload | ⟨index, hopen⟩) | ⟨other, message, -, hsend⟩
      · cases hload
      · cases hopen
      · cases hsend
  | opens info opened hopens =>
    rw [hopens.calls]
    intro before port after hsplit hcause
    rcases split_append hsplit with ⟨rest, hold⟩ | ⟨behind, rfl, hmore⟩
    · exact hclosed before port rest hold hcause
    · -- the port is closed right behind the opening of the other one
      cases behind with
      | nil => cases (List.cons.inj hmore).1
      | cons first behind =>
        obtain ⟨rfl, hclosing⟩ := List.cons.inj hmore
        have hlength : (closing h.synth.output).length = (behind ++ .close port :: after).length :=
          congrArg List.length hclosing
        have hfew : (closing (α := α) h.synth.output).length ≤ 1 := by
          cases h.synth.output <;> simp [closing]
        rw [List.length_append, List.length_cons] at hlength
        obtain rfl := List.eq_nil_of_length_eq_zero (l := behind) (by omega)
        exact absurd List.getLast?_concat (hcause info.index opened)
  | closes current _ hcalls _ _ =>
    rw [hcalls]
    intro before port after hsplit hcause
    rcases split_append hsplit with ⟨rest, hold⟩ | ⟨behind, rfl, hmore⟩
    · exact hclosed before port rest hold hcause
    · rcases split_append hmore with ⟨rest, hsilence⟩ | ⟨last, rfl, hlast⟩
      · have hmem : Call.close (α := α) port ∈ silence.map (.send current) := by
          rw [hsilence]
          exact List.mem_append_right _ List.mem_cons_self
        obtain ⟨_, -, hsend⟩ := List.mem_map.mp hmem
        cases hsend
      · cases last with
        | nil =>
          obtain rfl := Call.close.inj (List.cons.inj hlast).1
          rw [List.append_nil]
          exact released_append_silence h.calls current
        | cons first last => cases (List.append_eq_nil_iff.mp (List.cons.inj hlast).2.symm).2

/-! ## Turns without notes -/

/-- No note is started or ended. -/
def Unsounding (h h' : Host (Device σ α) α) : Prop :=
  ∃ more, h'.calls = h.calls ++ more ∧ ∀ call ∈ more, ¬SoundsNote call

theorem not_soundsNote_of_ne_send {call : Call α} (h : ∀ port message, call ≠ .send port message) :
    ¬SoundsNote call := fun ⟨port, message, _, hsend⟩ => h port message hsend

section

variable {h h' h'' : Host (Device σ α) α}

theorem Unsounding.of_calls (hcalls : h'.calls = h.calls) : Unsounding h h' :=
  ⟨[], by rw [hcalls, List.append_nil], by simp⟩

theorem Unsounding.trans (hfirst : Unsounding h h') (hthen : Unsounding h' h'') :
    Unsounding h h'' := by
  obtain ⟨more, hcalls, hmore⟩ := hfirst
  obtain ⟨rest, hrest, hothers⟩ := hthen
  exact ⟨more ++ rest, by rw [hrest, hcalls, List.append_assoc],
    List.forall_mem_append.mpr ⟨hmore, hothers⟩⟩

theorem Idle.unsounding (hidle : Idle h h') : Unsounding h h' := by
  obtain ⟨more, hcalls, hmore⟩ := hidle.calls
  refine ⟨more, hcalls, fun call hmem => not_soundsNote_of_ne_send ?_⟩
  rcases hmore call hmem with rfl | ⟨index, rfl⟩ <;> simp

theorem Opens.unsounding {info : OutputInfo} {port : Port} (hopens : Opens info port h h') :
    Unsounding h h' :=
  ⟨_, hopens.calls, List.forall_mem_cons.mpr
    ⟨not_soundsNote_of_ne_send (by simp), fun _ hmem =>
      not_soundsNote_of_ne_send (ne_send_of_mem_closing hmem)⟩⟩

variable [Hardware σ]

theorem unsounding_sendAll {messages : List (List UInt8)} (hcalls : h'.calls = h.calls)
    (hmessages : ∀ message ∈ messages, Midi.isNote message = false) :
    Unsounding h (sendAll messages h') := by
  cases hport : h'.synth.output with
  | none =>
    rw [sendAll_of_none messages hport]
    exact .of_calls hcalls
  | some port =>
    refine ⟨_, by rw [calls_sendAll messages hport, hcalls], fun call hmem => ?_⟩
    obtain ⟨message, hmessage, rfl⟩ := List.mem_map.mp hmem
    exact not_soundsNote_send (hmessages message hmessage) port

theorem unsounding_cancelAll (h : Host (Device σ α) α) : Unsounding h (cancelAll h) := by
  cases halive : h.synth.disposed with
  | true =>
    rw [cancelAll, if_pos halive]
    exact .of_calls rfl
  | false =>
    rw [cancelAll_of_alive halive]
    exact unsounding_sendAll rfl fun _ hmem => (of_mem_silence hmem).2

variable [Scalar α]

/-- Orders send no notes. -/
theorem unsounding_obey (order : Order α) (h : Host (Device σ α) α) :
    Unsounding h (obey order h) := by
  cases order with
  | setup setup =>
    unfold obey Device.setup
    dsimp only
    split
    · exact .of_calls rfl
    · exact unsounding_sendAll rfl fun _ hmem => (of_mem_setupMessages hmem).2
  | schedule event seconds =>
    unfold obey schedule
    dsimp only
    split <;> exact .of_calls rfl
  | cancelAll => exact unsounding_cancelAll h
  | dispose =>
    unfold obey Device.dispose
    dsimp only
    split
    · exact .of_calls rfl
    · refine (unsounding_cancelAll h).trans
        ⟨_, calls_closeOutput (h := cancelAll h), fun _ hmem =>
          not_soundsNote_of_ne_send (ne_send_of_mem_closing hmem)⟩

/-- **Only timers that run send notes.** -/
theorem Usage.unsounding_take (u : Usage σ α) {turn : Turn α} (hturn : turn ≠ .ring) :
    Unsounding u.host (u.take turn).host := by
  cases u.happening turn with
  | idle _ hidle => exact hidle.unsounding
  | opens _ _ _ hopens => exact hopens.unsounding
  | obeys order _ hhost => exact hhost ▸ unsounding_obey order u.host
  | passes _ _ hhost =>
    rw [hhost]
    exact .of_calls rfl
  | fires _ hring _ _ => exact absurd hring hturn

theorem Usage.unsounding_run (u : Usage σ α) {turns : List (Turn α)} (hturns : .ring ∉ turns) :
    Unsounding u.host (u.run turns).host := by
  induction turns generalizing u with
  | nil => exact .of_calls rfl
  | cons turn rest ih =>
    obtain ⟨hfirst, hrest⟩ := not_or.mp (List.mem_cons.not.mp hturns)
    exact (u.unsounding_take (Ne.symm hfirst)).trans (ih _ hrest)

end

/-! ## Every run -/

variable [Scalar α] [Hardware σ]

/-- **What is closed in silence.** Wherever a port is closed, and not because another output was
opened, every note that was started on it was ended there or had its channel silenced. So it is
wherever a port is closed that all channels of were silenced, as long as no timer has run since. -/
theorem released_at_closing (now : α) (hardware : σ) (turns : List (Turn α)) :
    let u := (Usage.made now hardware).run turns
    (∀ before port after, u.host.calls = before ++ .close port :: after →
      (∀ index other, before.getLast? ≠ some (.openOutput index (some other))) →
        Released port before) ∧
    ∀ earlier later port, turns = earlier ++ .order .cancelAll :: later → .ring ∉ later →
      let sounding := ((Usage.made now hardware).run earlier).host
      let silenced := ((Usage.made now hardware).run (earlier ++ [.order .cancelAll])).host
      sounding.synth.disposed = false → sounding.synth.output = some port →
      ∀ before after, u.host.calls = before ++ .close port :: after → silenced.calls <+: before →
        Released port before := by
  intro u
  refine ⟨?_, ?_⟩
  · exact Usage.run_induction (motive := fun u => ClosedInSilence u.host.calls)
      (fun u turn h => (u.effect_take turn).closedInSilence h) (u := Usage.made now hardware)
      (fun before port after hsplit => absurd hsplit (by simp [Usage.made, startingAt,
        Host.startingAt])) turns
  · intro earlier later port hsplit hlater sounding silenced halive hport before after hclose hgrows
    have hsilenced : silenced.calls = sounding.calls ++ silence.map (.send port) := by
      change ((Usage.made now hardware).run (earlier ++ [.order .cancelAll])).host.calls = _
      rw [Usage.run_append]
      change (cancelAll sounding).calls = _
      rw [cancelAll_of_alive halive, calls_sendAll silence (h := dropPending sounding) hport]
      rfl
    have hrun : u = ((Usage.made now hardware).run (earlier ++ [.order .cancelAll])).run later := by
      change (Usage.made now hardware).run turns = _
      rw [hsplit, ← Usage.run_append, List.append_assoc, List.singleton_append]
    obtain ⟨more, hcalls, hmore⟩ := Usage.unsounding_run
      ((Usage.made now hardware).run (earlier ++ [.order .cancelAll])) hlater
    rw [← hrun] at hcalls
    obtain ⟨between, rfl⟩ := hgrows
    -- what was called between the silence and the closing is among what was called behind it
    have hbetween : more = between ++ .close port :: after := by
      refine List.append_cancel_left (hcalls.symm.trans ?_)
      rw [hclose, List.append_assoc]
    rw [hsilenced]
    exact (released_append_silence _ _).append fun call hmem =>
      hmore call (hbetween ▸ List.mem_append_left _ hmem)

/-- Two outputs that can be used, on a MIDI system that raises no errors. -/
def twoOutputs : Script where
  engines := []
  info := .object [("outputs", .array [.object [], .object []])]
  infoFault? := none
  ports := []
  sendFault? _ := none
  closeFault? := none

/-- The start of a note. -/
def struck : TimedEvent Rat := ⟨.noteOn, 0, 0, 60, 100, "Piano"⟩

/-- The first output is opened, and a note is started on its port. -/
def sounding : List (Turn Rat) :=
  .call .start :: List.replicate 5 (.resume 0) ++ [.order (.schedule struck 0), .ring]

/-- The second output is selected. -/
def switching : List (Turn Rat) := [.call (.selectOutput "1"), .resume 1]

/-- The first port is closed in silence if all channels are silenced first, and so is the second one
when the device is disposed of. -/
theorem released_at_closing_switched :
    let u := (Usage.made (0 : Rat) twoOutputs).run
      (sounding ++ .order .cancelAll :: (switching ++ [.order .dispose]))
    let opening : List (Call Rat) := [.loadEngine, .openOutput 0 (some ⟨0, 0⟩),
      .send ⟨0, 0⟩ (Midi.noteOn 0 60 100)] ++ silence.map (.send ⟨0, 0⟩)
    let switched := opening ++ [.openOutput 1 (some ⟨1, 1⟩)]
    let rest := switched ++ .close ⟨0, 0⟩ :: silence.map (.send ⟨1, 1⟩)
    u.host.calls = rest ++ [.close ⟨1, 1⟩] ∧ Released ⟨0, 0⟩ switched ∧ Released ⟨1, 1⟩ rest := by
  intro u opening switched rest
  have hcalls : u.host.calls = rest ++ [.close ⟨1, 1⟩] := by decide +kernel
  obtain ⟨hdisposal, hsilenced⟩ := released_at_closing (0 : Rat) twoOutputs
    (sounding ++ .order .cancelAll :: (switching ++ [.order .dispose]))
  have hlast : rest.getLast? = some (.send ⟨1, 1⟩ (Midi.controlChange 15 123 0)) := by
    decide +kernel
  have hbefore : ((Usage.made (0 : Rat) twoOutputs).run
      (sounding ++ [.order .cancelAll])).host.calls = opening := by
    decide +kernel
  refine ⟨hcalls, ?_, ?_⟩
  · refine hsilenced sounding (switching ++ [.order .dispose]) ⟨0, 0⟩ rfl (by decide)
      (by decide +kernel) (by decide +kernel) switched
      (silence.map (.send ⟨1, 1⟩) ++ [.close ⟨1, 1⟩]) (hcalls.trans ?_) ?_
    · exact List.append_assoc ..
    · rw [hbefore]
      exact List.prefix_append ..
  · refine hdisposal rest ⟨1, 1⟩ [] hcalls fun index other hopened => ?_
    cases hlast.symm.trans hopened

/-- **A port is closed with a note sounding on it**: the one that another output is selected in
place of. -/
theorem closed_while_sounding :
    let u := (Usage.made (0 : Rat) twoOutputs).run (sounding ++ switching)
    ∃ before after, u.host.calls = before ++ .close ⟨0, 0⟩ :: after ∧ ¬Released ⟨0, 0⟩ before := by
  intro u
  have hcalls : u.host.calls = [.loadEngine, .openOutput 0 (some ⟨0, 0⟩),
      .send ⟨0, 0⟩ (Midi.noteOn 0 60 100), .openOutput 1 (some ⟨1, 1⟩), .close ⟨0, 0⟩] := by
    decide +kernel
  refine ⟨[.loadEngine, .openOutput 0 (some ⟨0, 0⟩), .send ⟨0, 0⟩ (Midi.noteOn 0 60 100),
    .openOutput 1 (some ⟨1, 1⟩)], [], hcalls, fun hreleased => ?_⟩
  rcases hreleased [.loadEngine, .openOutput 0 (some ⟨0, 0⟩)] [.openOutput 1 (some ⟨1, 1⟩)]
    0 60 100 rfl with hsilenced | ⟨velocity, hended⟩
  · cases List.mem_singleton.mp hsilenced
  · cases List.mem_singleton.mp hended

end LeadSheet.Device
