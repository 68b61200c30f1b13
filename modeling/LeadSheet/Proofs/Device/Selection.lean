import LeadSheet.Device.Script
import LeadSheet.Proofs.Device.Usage
import LeadSheet.Proofs.Number.Exact

/-!
# Selecting outputs

Outputs are opened one in place of the other, and calls that select them may overlap. Nothing goes
astray (`selection_atomic`): a call that selects no output changes none, the output that is selected
is always the one whose port is open, and of all ports that were ever opened one is still open and
every other was closed, once.

That no port is closed twice, or instead of another, takes a MIDI system that never opens the same
port twice. This is said of the ports that were opened in a run, with nothing asked of the ways
in which anything may fail.
-/

namespace LeadSheet.Device

open Playback (Call Host Port)

variable {σ α : Type}

/-! ## Ports among the calls -/

/-- The ports that were opened, in order. -/
def opened (calls : List (Call α)) : List Port :=
  calls.filterMap fun
    | .openOutput _ port? => port?
    | _ => none

/-- The ports that were closed, in order. -/
def closed (calls : List (Call α)) : List Port :=
  calls.filterMap fun
    | .close port => some port
    | _ => none

section

variable {calls more : List (Call α)}

theorem opened_append : opened (calls ++ more) = opened calls ++ opened more :=
  List.filterMap_append

theorem closed_append : closed (calls ++ more) = closed calls ++ closed more :=
  List.filterMap_append

theorem opened_map_send (port : Port) (messages : List (List UInt8)) :
    opened (messages.map (Call.send (α := α) port)) = [] := by
  simp [opened]

theorem closed_map_send (port : Port) (messages : List (List UInt8)) :
    closed (messages.map (Call.send (α := α) port)) = [] := by
  simp [closed]

theorem opened_closing (output : Option Port) : opened (closing (α := α) output) = [] := by
  simp [opened, closing]

theorem closed_closing (output : Option Port) :
    closed (closing (α := α) output) = output.toList := by
  simp [closed, closing]

end

/-! ## What a turn keeps -/

/-- Of the ports that were opened the current one is still open, and the others were closed. -/
structure Accounted (h : Host (Device σ α) α) : Prop where
  current : ∀ port, h.synth.output = some port → port ∈ opened h.calls
  closings : ∀ port, (closed h.calls).count port
    = if port ∈ opened h.calls ∧ h.synth.output ≠ some port then 1 else 0

namespace Effect

variable {h h' : Host (Device σ α) α} (he : Effect h h')

include he

theorem calls_grow : h.calls <+: h'.calls := by
  cases he with
  | stays more hcalls _ _ _ => exact ⟨more, hcalls.symm⟩
  | opens info port hopens => exact ⟨_, hopens.calls.symm⟩
  | closes port _ hcalls _ _ => exact ⟨_, hcalls.symm⟩

theorem selected_eq_none_iff (h : h.synth.selected = none ↔ h.synth.output = none) :
    h'.synth.selected = none ↔ h'.synth.output = none := by
  cases he with
  | stays _ _ _ houtput hselected => rwa [houtput, hselected]
  | opens info port hopens => simp [hopens.output, hopens.selected]
  | closes _ _ _ hclosed hselected => simp [hclosed, hselected]

/-- **A turn leaves all ports accounted for**, unless a port is opened once more. -/
theorem accounted (ha : Accounted h) (hdistinct : (opened h'.calls).Nodup) : Accounted h' := by
  cases he with
  | stays more hcalls hsent houtput _ =>
    have hopened : opened more = [] := List.filterMap_eq_nil_iff.mpr fun call hmem => by
      rcases hsent call hmem with (rfl | ⟨index, rfl⟩) | ⟨port, message, -, rfl⟩ <;> rfl
    have hclosed : closed more = [] := List.filterMap_eq_nil_iff.mpr fun call hmem => by
      rcases hsent call hmem with (rfl | ⟨index, rfl⟩) | ⟨port, message, -, rfl⟩ <;> rfl
    exact {
      current := by simpa [hcalls, houtput, opened_append, hopened] using ha.current
      closings := by
        simpa [hcalls, houtput, opened_append, closed_append, hopened, hclosed] using ha.closings }
  | opens info port hopens =>
    have hcalls : opened h'.calls = opened h.calls ++ [port] := by
      rw [hopens.calls, opened_append]
      exact congrArg (opened h.calls ++ port :: ·) (opened_closing _)
    have hclosings : closed h'.calls = closed h.calls ++ h.synth.output.toList := by
      rw [hopens.calls, closed_append]
      exact congrArg (closed h.calls ++ ·) (closed_closing _)
    have hnew : port ∉ opened h.calls := fun hmem => by
      rw [hcalls] at hdistinct
      exact (List.nodup_append.mp hdistinct).2.2 port hmem port (List.mem_singleton_self port) rfl
    refine ⟨fun other hother => ?_, fun other => ?_⟩
    · obtain rfl := Option.some.inj (hopens.output.symm.trans hother)
      rw [hcalls]
      exact List.mem_append_right _ (List.mem_singleton_self _)
    · rw [hclosings, List.count_append, ha.closings other, hcalls, hopens.output]
      by_cases hnow : h.synth.output = some other
      · -- the port that was current so far is closed here
        have hbefore := ha.current other hnow
        have hother : port ≠ other := fun heq => hnew (heq ▸ hbefore)
        simp [hnow, hbefore, hother]
      · have hzero : h.synth.output.toList.count other = 0 :=
          List.count_eq_zero.mpr fun hmem => hnow (Option.mem_toList.mp hmem)
        rw [hzero]
        by_cases heq : other = port
        · subst heq
          simp [hnew]
        · simp [hnow, heq, Ne.symm heq]
  | closes port hport hcalls hnone _ =>
    have hopened : opened h'.calls = opened h.calls := by
      rw [hcalls, opened_append, opened_append, opened_map_send]
      exact List.append_nil _
    have hclosed : closed h'.calls = closed h.calls ++ [port] := by
      rw [hcalls, closed_append, closed_append, closed_map_send]
      rfl
    refine ⟨fun other hother => ?_, fun other => ?_⟩
    · cases hnone.symm.trans hother
    · rw [hclosed, List.count_append, ha.closings other, hopened, hnone, hport]
      by_cases heq : other = port
      · subst heq
        simp [ha.current other hport]
      · simp [Ne.symm heq]

end Effect

namespace Usage

variable [Scalar α] [Hardware σ]

theorem calls_grow_run (u : Usage σ α) (turns : List (Turn α)) :
    u.host.calls <+: (u.run turns).host.calls :=
  run_induction (motive := fun later => u.host.calls <+: later.host.calls)
    (fun later turn hgrows => hgrows.trans (later.effect_take turn).calls_grow)
    List.prefix_rfl turns

theorem accounted_run {u : Usage σ α} (ha : Accounted u.host) {turns : List (Turn α)}
    (hdistinct : (opened (u.run turns).host.calls).Nodup) : Accounted (u.run turns).host := by
  induction turns generalizing u with
  | nil => exact ha
  | cons turn rest ih =>
    have hgrows := (u.take turn).calls_grow_run rest
    have hfirst : (opened (u.take turn).host.calls).Nodup :=
      (hgrows.sublist.filterMap _).nodup hdistinct
    exact ih ((u.effect_take turn).accounted ha hfirst) hdistinct

/-- One output is selected, or none is open. -/
theorem selected_eq_none_iff (now : α) (hardware : σ) (turns : List (Turn α)) :
    ((made now hardware).run turns).host.synth.selected = none ↔
      ((made now hardware).run turns).host.synth.output = none :=
  run_induction (motive := fun u => u.host.synth.selected = none ↔ u.host.synth.output = none)
    (fun u turn h => (u.effect_take turn).selected_eq_none_iff h) (u := made now hardware)
    ⟨fun _ => rfl, fun _ => rfl⟩ turns

/-! ## Calls that select nothing -/

/-- Whether a turn belongs to a call, given by how many were made before it. -/
def IsTurnOf (u : Usage σ α) (number : Nat) : Turn α → Prop
  | .call _ => u.errands.length = number
  | .resume other => other = number
  | _ => False

/-- With a turn of its own a call changes no output, unless it is an initialization, or the output
it was to select is selected. -/
theorem output_take {u : Usage σ α} (hfits : ∀ e ∈ u.errands, e.Fits) {turn : Turn α}
    {number : Nat} (hturn : u.IsTurnOf number turn) :
    (u.take turn).host.synth.output = u.host.synth.output ∧
        (u.take turn).host.synth.selected = u.host.synth.selected ∨
      ∃ e, (u.take turn).errands[number]? = some e ∧
        (e.request = .start ∨ e.task = .done (.selected true)) := by
  cases turn with
  | call request =>
    have hidle := idle_ofRequest request u.host
    exact .inl ⟨hidle.output, hidle.selected⟩
  | resume other =>
    obtain rfl : other = number := hturn
    cases herrand : u.errands[other]? with
    | none =>
      rw [take_resume_of_none herrand]
      exact .inl ⟨rfl, rfl⟩
    | some errand =>
      rw [take_resume herrand]
      have hset := List.getElem?_set_self (a := (⟨errand.request,
        (errand.task.step u.host).1⟩ : Errand)) (List.getElem?_eq_some_iff.mp herrand).1
      rcases errand.task.step_cases u.host with hidle |
        ⟨-, ⟨id, engine?, -, hdone⟩ | ⟨first, engine?, htask, -⟩⟩
      · exact .inl ⟨hidle.output, hidle.selected⟩
      · exact .inr ⟨_, hset, .inr hdone⟩
      · -- the task is known to be one of an initialization, and so the call is one
        have hcarries := hfits errand (List.mem_of_getElem? herrand)
        rw [Errand.Fits, htask] at hcarries
        rcases hcarries with hnone | hstart
        · cases hnone
        · exact .inr ⟨_, hset, .inl (Option.some.inj hstart).symm⟩
  | order order => exact hturn.elim
  | pass milliseconds => exact hturn.elim
  | ring => exact hturn.elim

end Usage

/-! ## Every run -/

variable [Scalar α] [Hardware σ]

/-- **Selecting an output is all or nothing, and no port is lost.** Whatever the MIDI system does,
and whatever calls overlap in whatever way: a call to select an output that has not ended in its
being selected leaves the output that is open and the one that is selected as they are, with all its
turns; one is selected exactly if one is open; and as long as no port is opened twice, every port
that was ever opened is open, and was not closed, or was closed once. -/
theorem selection_atomic (now : α) (hardware : σ) (turns : List (Turn α)) :
    let u := (Usage.made now hardware).run turns
    (∀ number id task, u.errands[number]? = some ⟨.selectOutput id, task⟩ →
      task.result? ≠ some (.selected true) →
      ∀ before turn after, turns = before ++ turn :: after →
        let earlier := (Usage.made now hardware).run before
        earlier.IsTurnOf number turn →
          (earlier.take turn).host.synth.output = earlier.host.synth.output ∧
          (earlier.take turn).host.synth.selected = earlier.host.synth.selected) ∧
    (u.host.synth.selected = none ↔ u.host.synth.output = none) ∧
    ((opened u.host.calls).Nodup → ∀ port ∈ opened u.host.calls,
      (closed u.host.calls).count port = if u.host.synth.output = some port then 0 else 1) := by
  intro u
  refine ⟨?_, Usage.selected_eq_none_iff now hardware turns, ?_⟩
  · intro number id task hcall hresult before turn after hsplit earlier hturn
    rcases Usage.output_take (Usage.fits_run now hardware before) hturn with hsame | ⟨e, he, hwell⟩
    · exact hsame
    · -- what the call has come to with this turn, it has come to at the end of the run
      obtain ⟨e', he', hleads⟩ := (earlier.take turn).errands_run after he
      have hrun : u = (earlier.take turn).run after := by
        change (Usage.made now hardware).run turns = _
        rw [hsplit, Usage.run_append]
        rfl
      rw [← hrun, hcall] at he'
      obtain rfl := Option.some.inj he'
      rcases hwell with hstart | hdone
      · cases hleads.request_eq.trans hstart
      · refine absurd ?_ hresult
        rw [show task = _ from hleads.done _ hdone]
        rfl
  · intro hdistinct port hport
    have hmade : Accounted (Usage.made now hardware).host :=
      ⟨fun _ hnone => (by cases hnone), fun _ => rfl⟩
    rw [(Usage.accounted_run hmade hdistinct).closings port]
    by_cases hcurrent : u.host.synth.output = some port
    · rw [if_pos hcurrent, if_neg fun h => h.2 hcurrent]
    · rw [if_neg hcurrent, if_pos ⟨hport, hcurrent⟩]

/-- Two outputs, the second of which cannot be opened. -/
def brokenSecond : Script where
  engines := []
  info := .object [("outputs", .array [.object [], .object []])]
  infoFault? := none
  ports := [.usable, .raising ⟨"Error", "open failed"⟩]
  sendFault? _ := none
  closeFault? := some ⟨"Error", "close failed"⟩

/-- Two initializations take turns, and then the second output is asked for. -/
def overlapping : List (Turn Rat) :=
  [.call .start, .call .start] ++ (List.replicate 5 [.resume 0, .resume 1]).flatten ++
    [.call (.selectOutput "1")]

/-- The port of the first initialization gives way to the one of the second, which stays open when
the selection fails, and which the disposal closes. -/
theorem selection_atomic_overlapping :
    let asking := (Usage.made (0 : Rat) brokenSecond).run overlapping
    let failed := (Usage.made (0 : Rat) brokenSecond).run (overlapping ++ [.resume 2])
    let disposed :=
      (Usage.made (0 : Rat) brokenSecond).run (overlapping ++ [.resume 2, .order .dispose])
    (∃ task, failed.errands[2]? = some ⟨.selectOutput "1", task⟩ ∧
        task.result? = some (.selected false)) ∧
      asking.host.synth.output = some ⟨0, 1⟩ ∧
      (asking.take (.resume 2)).host.synth.output = asking.host.synth.output ∧
      (asking.take (.resume 2)).host.synth.selected = asking.host.synth.selected ∧
      (disposed.host.synth.selected = none ↔ disposed.host.synth.output = none) ∧
      ∀ port ∈ [⟨0, 0⟩, ⟨0, 1⟩], (closed disposed.host.calls).count port = 1 := by
  have hfailed : ((Usage.made (0 : Rat) brokenSecond).run
      (overlapping ++ [.resume 2])).errands[2]?.any (fun e => e.request = .selectOutput "1" &&
        e.task.result? = some (.selected false)) = true := by
    decide +kernel
  obtain ⟨⟨request, task⟩, he, hends⟩ := (Option.any_eq_true _ _).mp hfailed
  rw [Bool.and_eq_true, decide_eq_true_eq, decide_eq_true_eq] at hends
  obtain ⟨rfl, hresult⟩ := hends
  have hfalse : task.result? ≠ some (.selected true) := by
    rw [hresult]
    decide
  have hturn : ((Usage.made (0 : Rat) brokenSecond).run overlapping).IsTurnOf 2 (.resume 2) :=
    show 2 = 2 from rfl
  obtain ⟨hselecting, -, -⟩ :=
    selection_atomic (0 : Rat) brokenSecond (overlapping ++ [.resume 2])
  obtain ⟨houtput, hinfo⟩ := hselecting 2 "1" task he hfalse overlapping (.resume 2) [] rfl hturn
  obtain ⟨-, hselected, hports⟩ :=
    selection_atomic (0 : Rat) brokenSecond (overlapping ++ [.resume 2, .order .dispose])
  have hopened : opened ((Usage.made (0 : Rat) brokenSecond).run
      (overlapping ++ [.resume 2, .order .dispose])).host.calls = [⟨0, 0⟩, ⟨0, 1⟩] := by
    decide +kernel
  have hclosed : ((Usage.made (0 : Rat) brokenSecond).run
      (overlapping ++ [.resume 2, .order .dispose])).host.synth.output = none := by
    decide +kernel
  rw [hopened, hclosed] at hports
  exact ⟨⟨task, he, hresult⟩, by decide +kernel, houtput, hinfo, hselected,
    fun port hmem => hports (by decide) port hmem⟩

end LeadSheet.Device
