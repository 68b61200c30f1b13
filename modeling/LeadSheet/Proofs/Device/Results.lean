import LeadSheet.Proofs.Device.Muffled
import LeadSheet.Proofs.Device.Selection

/-!
# What calls come to when things fail

Anything that a device asks of the MIDI system may raise an error, and most of the time nothing
comes of it but silence. Errors of ports go no further (`Proofs.Device.Muffled`); without an engine
there are no outputs, and nothing can be selected. Every call ends (`Usage.exists_ended`), and what
it ends with suits it (`Comes`), with one exception: what an engine raises when it is asked for its
outputs is passed on by the calls that list outputs and select one (`failing_to_list`). The
initialization is not among them.
-/

namespace LeadSheet.Device

open Playback (Fault Host)

variable {σ α : Type} [Hardware σ]

/-! ## What a call can come to -/

/-- What a call can end with, by the turn that takes the host from `h` to `h'`. -/
inductive Comes (h h' : Host (Device σ α) α) : Request → Result → Prop where
  /-- An initialization tells whether a port is open. -/
  | initialized : Comes h h' .start (.initialized h'.synth.output.isSome)
  /-- Without an engine there are no outputs. -/
  | unequipped : Comes h h' .listOutputs (.outputs [])
  | listed (engine : Engine) {info : Json}
      (hinfo : (Hardware.info engine h.synth.hardware).1 = .ok info) :
      Comes h h' .listOutputs (.outputs (outputsOf info))
  | selected (id : String) (done : Bool) : Comes h h' (.selectOutput id) (.selected done)
  /-- An engine that is asked what there is raises an error. -/
  | failed (engine : Engine) {fault : Fault} {request : Request} (hrequest : request ≠ .start)
      (hinfo : (Hardware.info engine h.synth.hardware).1 = .error fault) :
      Comes h h' request (.failed fault)

section

variable {h : Host (Device σ α) α}

theorem outputsFrom_eq_ok {engine? : Option Engine} {outputs : List OutputInfo}
    (hok : (outputsFrom engine? h).1 = .ok outputs) :
    outputs = [] ∨ ∃ engine info, (Hardware.info engine h.synth.hardware).1 = .ok info ∧
      outputs = outputsOf info := by
  cases engine? with
  | none => exact .inl (Except.ok.inj hok).symm
  | some engine =>
    unfold outputsFrom at hok
    dsimp only at hok
    cases hinfo : (Hardware.info engine h.synth.hardware).1 with
    | error fault =>
      rw [hinfo] at hok
      cases hok
    | ok info =>
      rw [hinfo] at hok
      exact .inr ⟨engine, info, hinfo, (Except.ok.inj hok).symm⟩

/-- Only an engine raises an error when there are outputs to be listed. -/
theorem outputsFrom_eq_error {engine? : Option Engine} {fault : Fault}
    (herror : (outputsFrom engine? h).1 = .error fault) :
    ∃ engine, (Hardware.info engine h.synth.hardware).1 = .error fault := by
  cases engine? with
  | none => cases herror
  | some engine =>
    unfold outputsFrom at herror
    dsimp only at herror
    cases hinfo : (Hardware.info engine h.synth.hardware).1 with
    | error fault' =>
      rw [hinfo] at herror
      exact ⟨engine, hinfo.trans (congrArg Except.error (Except.error.inj herror))⟩
    | ok info =>
      rw [hinfo] at herror
      cases herror

/-- Selecting passes on what listing raises, and nothing else. -/
theorem selectFrom_eq_error {engine? : Option Engine} {id : String} {fault : Fault}
    (herror : (selectFrom engine? id h).1 = .error fault) :
    ∃ engine, (Hardware.info engine h.synth.hardware).1 = .error fault := by
  unfold selectFrom at herror
  split at herror
  · cases herror
  · next engine =>
    split at herror
    · next fault' host hlisted =>
      have hfault : (outputsFrom (some engine) h).1 = .error fault' := congrArg Prod.fst hlisted
      obtain rfl := Except.error.inj herror
      exact outputsFrom_eq_error hfault
    · split at herror <;> cases herror

/-! ## Steps -/

omit [Hardware σ] in
/-- A task that still carries out a call has not ended. -/
theorem Task.result?_of_request? {task : Task} {request : Request}
    (hcarries : task.request? = some request) : task.result? = none := by
  cases task with
  | done result => cases hcarries
  | _ => rfl

/-- Whoever wants an engine waits. -/
theorem result?_askFor (goal : Goal) (h : Host (Device σ α) α) :
    (askFor goal h).1.result? = none := Task.result?_of_request? (Task.request?_askFor goal h)

/-- What a call that is over at once has come to. -/
theorem comes_ofRequest {request : Request} {result : Result}
    (hdone : (Task.ofRequest request h).1.result? = some result) :
    Comes h (Task.ofRequest request h).2 request result := by
  cases request with
  | start =>
    unfold Task.ofRequest at hdone ⊢
    dsimp only at hdone ⊢
    split at hdone
    · next hinit =>
      rw [if_pos hinit]
      cases hdone
      exact .initialized
    · cases (result?_askFor .firstList h).symm.trans hdone
  | listOutputs => cases (result?_askFor .list h).symm.trans hdone
  | selectOutput id => cases (result?_askFor (.select id) h).symm.trans hdone

/-- What a call has come to when it uses its engine. -/
theorem comes_useEngine {goal : Goal} {engine? : Option Engine} {result : Result}
    (hdone : (Task.useEngine goal engine? h).1.result? = some result) :
    Comes h (Task.useEngine goal engine? h).2 goal.request result := by
  unfold Task.useEngine at hdone ⊢
  cases goal with
  | list =>
    dsimp only at hdone ⊢
    split at hdone
    · next outputs host hlisted =>
      obtain rfl := Option.some.inj hdone
      obtain rfl | ⟨engine, info, hinfo, rfl⟩ := outputsFrom_eq_ok (congrArg Prod.fst hlisted)
      · exact .unequipped
      · exact .listed engine hinfo
    · next fault host hlisted =>
      obtain rfl := Option.some.inj hdone
      obtain ⟨engine, hinfo⟩ := outputsFrom_eq_error (congrArg Prod.fst hlisted)
      exact .failed engine nofun hinfo
  | select id =>
    dsimp only at hdone ⊢
    split at hdone
    · next done host hselected =>
      obtain rfl := Option.some.inj hdone
      exact .selected id done
    · next fault host hselected =>
      obtain rfl := Option.some.inj hdone
      obtain ⟨engine, hinfo⟩ := selectFrom_eq_error (congrArg Prod.fst hselected)
      exact .failed engine nofun hinfo
  | firstList => cases hdone
  | firstSelect first => cases hdone

/-- What a call that goes on has come to, if it is over then. -/
theorem comes_step {task : Task} {request : Request} {result : Result}
    (hcarries : task.request? = some request) (hdone : (task.step h).1.result? = some result) :
    Comes h (task.step h).2 request result := by
  match task with
  | .asked goal answer => cases hdone
  | .equipped goal engine? =>
    obtain rfl := Option.some.inj hcarries
    exact comes_useEngine hdone
  | .listed (.ok (first :: _)) =>
    cases (result?_askFor (.firstSelect first) h).symm.trans hdone
  | .listed (.ok []) | .listed (.error _) | .chosen _ (.ok _) | .chosen _ (.error _) =>
    obtain rfl := Option.some.inj hcarries
    obtain rfl := Option.some.inj hdone
    exact .initialized
  | .done _ => cases hcarries

end

/-! ## Runs -/

/-- Whether a turn lets a call go on, given by how many were made before it. -/
def Turn.resumes (number : Nat) : Turn α → Bool
  | .resume other => other == number
  | _ => false

namespace Usage

variable [Scalar α] {u : Usage σ α}

/-- A call that has ended behind a turn had ended before, or the turn was its own. -/
theorem comes_take (hfits : ∀ e ∈ u.errands, e.Fits) (turn : Turn α) {number : Nat} {e : Errand}
    {result : Result} (he : (u.take turn).errands[number]? = some e)
    (hdone : e.task.result? = some result) :
    u.errands[number]? = some e ∨
      u.IsTurnOf number turn ∧ Comes u.host (u.take turn).host e.request result := by
  cases turn with
  | call request =>
    change (u.errands ++ [_])[number]? = some e at he
    by_cases hold : number < u.errands.length
    · rw [List.getElem?_append_left hold] at he
      exact .inl he
    · rw [List.getElem?_append_right (by omega)] at he
      obtain ⟨hindex, hnew⟩ := List.getElem?_eq_some_iff.mp he
      rw [List.length_singleton] at hindex
      rw [List.getElem_singleton] at hnew
      subst hnew
      exact .inr ⟨show u.errands.length = number by omega, comes_ofRequest hdone⟩
  | resume other =>
    cases herrand : u.errands[other]? with
    | none =>
      rw [take_resume_of_none herrand] at he
      exact .inl he
    | some errand =>
      rw [take_resume herrand] at he ⊢
      by_cases hsame : other = number
      · subst hsame
        rw [List.getElem?_set_self (List.getElem?_eq_some_iff.mp herrand).1] at he
        obtain rfl := Option.some.inj he
        rcases hfits errand (List.mem_of_getElem? herrand) with hended | hcarries
        · -- the call had ended, so that the turn changes nothing
          left
          cases htask : errand.task with
          | done result' =>
            rw [herrand]
            congr 1
            cases errand
            cases htask
            rfl
          | _ =>
            rw [htask] at hended
            cases hended
        · exact .inr ⟨rfl, comes_step hcarries hdone⟩
      · rw [List.getElem?_set_ne hsame] at he
        exact .inl he
  | order order => exact .inl he
  | pass milliseconds => exact .inl he
  | ring =>
    rw [errands_take_ring] at he
    exact .inl he

/-- What a call has come to, it has come to by one of its own turns. -/
theorem comes_run (hfits : ∀ e ∈ u.errands, e.Fits) (turns : List (Turn α)) {number : Nat}
    {e : Errand} {result : Result} (he : (u.run turns).errands[number]? = some e)
    (hdone : e.task.result? = some result) :
    u.errands[number]? = some e ∨
      ∃ before turn after, turns = before ++ turn :: after ∧ (u.run before).IsTurnOf number turn ∧
        Comes (u.run before).host ((u.run before).take turn).host e.request result := by
  induction turns generalizing u with
  | nil => exact .inl he
  | cons first rest ih =>
    rcases ih (fits_take hfits first) he with hearly | ⟨before, turn, after, rfl, hturn, hcomes⟩
    · rcases comes_take hfits first hearly hdone with hold | ⟨hturn, hcomes⟩
      · exact .inl hold
      · exact .inr ⟨[], first, rest, rfl, hturn, hcomes⟩
    · exact .inr ⟨first :: before, turn, after, rfl, hturn, hcomes⟩

/-- With each turn of its own a call comes closer to its end. -/
theorem rank_take (u : Usage σ α) (turn : Turn α) {number : Nat} {e : Errand}
    (he : u.errands[number]? = some e) :
    ∃ e', (u.take turn).errands[number]? = some e' ∧ e'.request = e.request ∧
      e'.task.rank ≤ e.task.rank - (turn.resumes number).toNat := by
  cases turn with
  | call request =>
    have hold := (List.getElem?_eq_some_iff.mp he).1
    exact ⟨e, (List.getElem?_append_left hold).trans he, rfl, le_rfl⟩
  | resume other =>
    by_cases hsame : other = number
    · subst hsame
      rw [take_resume he]
      refine ⟨_, List.getElem?_set_self (List.getElem?_eq_some_iff.mp he).1, rfl, ?_⟩
      simp only [Turn.resumes, beq_self_eq_true, Bool.toNat_true]
      by_cases hpos : 0 < e.task.rank
      · have hless := Task.rank_step_lt e.task u.host hpos
        omega
      · -- a task of rank zero is done, and stays so
        have hended : e.task.result? ≠ none := fun hnone =>
          hpos (Task.rank_pos_of_result?_eq_none hnone)
        cases htask : e.task with
        | done result => exact Nat.zero_le _
        | _ =>
          rw [htask] at hended
          exact absurd rfl hended
    · have hidle : Turn.resumes number (.resume other : Turn α) = false := by
        simpa [Turn.resumes] using hsame
      rw [hidle]
      cases herrand : u.errands[other]? with
      | none =>
        rw [take_resume_of_none herrand]
        exact ⟨e, he, rfl, le_rfl⟩
      | some errand =>
        rw [take_resume herrand]
        exact ⟨e, (List.getElem?_set_ne hsame).trans he, rfl, le_rfl⟩
  | order order => exact ⟨e, he, rfl, le_rfl⟩
  | pass milliseconds => exact ⟨e, he, rfl, le_rfl⟩
  | ring =>
    rw [errands_take_ring]
    exact ⟨e, he, rfl, le_rfl⟩

theorem rank_run (u : Usage σ α) (turns : List (Turn α)) {number : Nat} {e : Errand}
    (he : u.errands[number]? = some e) :
    ∃ e', (u.run turns).errands[number]? = some e' ∧ e'.request = e.request ∧
      e'.task.rank ≤ e.task.rank - turns.countP (Turn.resumes number) := by
  induction turns generalizing u e with
  | nil => exact ⟨e, he, rfl, Nat.sub_zero _ ▸ le_rfl⟩
  | cons turn rest ih =>
    obtain ⟨next, hnext, hrequest, hrank⟩ := u.rank_take turn he
    obtain ⟨last, hlast, hrequest', hrank'⟩ := ih (u.take turn) hnext
    refine ⟨last, hlast, hrequest'.trans hrequest, ?_⟩
    have hcount : (turn :: rest).countP (Turn.resumes number)
        = rest.countP (Turn.resumes number) + (turn.resumes number).toNat := by
      rw [List.countP_cons]
      cases turn.resumes number <;> rfl
    omega

omit [Scalar α] in
theorem rank_ofRequest_le (request : Request) (h : Host (Device σ α) α) :
    (Task.ofRequest request h).1.rank ≤ 6 := by
  cases request with
  | start =>
    unfold Task.ofRequest
    dsimp only
    split
    · exact Nat.zero_le _
    · exact Task.rank_askFor_le .firstList h
  | listOutputs => exact (Task.rank_askFor_le .list h).trans (Nat.le_add_left 2 4)
  | selectOutput id => exact (Task.rank_askFor_le (.select id) h).trans (Nat.le_add_left 2 4)

/-- **Every call ends** with its sixth turn behind the one in which it is made, if not before. -/
theorem exists_ended (u : Usage σ α) (request : Request) (after : List (Turn α))
    (hturns : 6 ≤ after.countP (Turn.resumes u.errands.length)) :
    ∃ e result, (u.run (.call request :: after)).errands[u.errands.length]? = some e ∧
      e.request = request ∧ e.task.result? = some result := by
  have hcalled : (u.take (.call request)).errands[u.errands.length]?
      = some ⟨request, (Task.ofRequest request u.host).1⟩ := List.getElem?_concat_length
  obtain ⟨e, he, hrequest, hrank⟩ := (u.take (.call request)).rank_run after hcalled
  have hmade := rank_ofRequest_le request u.host
  have hzero : ¬0 < e.task.rank := by
    dsimp only at hrank
    omega
  obtain ⟨result, hresult⟩ := Option.ne_none_iff_exists'.mp fun hnone =>
    hzero (Task.rank_pos_of_result?_eq_none hnone)
  exact ⟨e, result, he, hrequest, hresult⟩

end Usage

/-! ## Every run -/

variable [Scalar α]

/-- **Failures of the MIDI system come to silence, but for one.** Whatever the system raises or
gives, and whatever calls, orders and timers overlap in whatever way:

* every call ends, at the latest with the sixth turn it has behind the one in which it is made;
* what it ends with, it comes to by a turn of its own: an initialization with whether a port is open
  at that moment, a list with outputs and a selection with whether it was made; only these two may
  fail instead, with an error that an engine raises just then when it is asked for its outputs;
* errors of ports make no difference to anything but what is said to the user. -/
theorem fails_only_to_list (now : α) (hardware : σ) (turns : List (Turn α)) :
    let made := Usage.made now hardware
    (∀ before request after, turns = before ++ .call request :: after →
      let number := (made.run before).errands.length
      6 ≤ after.countP (Turn.resumes number) →
        ∃ e result, (made.run turns).errands[number]? = some e ∧ e.request = request ∧
          e.task.result? = some result) ∧
    (∀ number e result, (made.run turns).errands[number]? = some e →
      e.task.result? = some result →
        ∃ before turn after, turns = before ++ turn :: after ∧
          let earlier := made.run before
          earlier.IsTurnOf number turn ∧
            Comes earlier.host (earlier.take turn).host e.request result) ∧
    (made.run turns).Alike ((Usage.made now (⟨hardware⟩ : Muffled σ)).run turns) := by
  intro made
  refine ⟨?_, ?_, (Usage.alike_made now hardware).run turns⟩
  · rintro before request after rfl number hturns
    rw [Usage.run_append]
    exact (made.run before).exists_ended request after hturns
  · intro number e result he hdone
    rcases Usage.comes_run (u := made) (fun _ hmem => by cases hmem) turns he hdone with
      hnone | hcomes
    · cases hnone
    · exact hcomes

/-- Two outputs whose ports raise an error whatever is asked of them. -/
def raisingPorts : Script where
  engines := []
  info := .object [("outputs", .array [.object [], .object []])]
  infoFault? := none
  ports := []
  sendFault? _ := some ⟨"Error", "send failed"⟩
  closeFault? := some ⟨"Error", "close failed"⟩

/-- The first output is opened. -/
def openingFirst : List (Turn Rat) := .call .start :: List.replicate 6 (.resume 0)

/-- A call that was made goes on, while all notes are silenced and the first one is asked to. -/
def selecting : List (Turn Rat) :=
  [.resume 1, .order .cancelAll, .resume 0] ++ List.replicate 5 (.resume 1)

/-- Errors of ports do not keep the second output from being selected. -/
theorem fails_only_to_list_raisingPorts :
    let made := Usage.made (0 : Rat) raisingPorts
    let turns := openingFirst ++ .call (.selectOutput "1") :: selecting
    6 ≤ selecting.countP (Turn.resumes (made.run openingFirst).errands.length) ∧
      (∃ e result, (made.run turns).errands[(made.run openingFirst).errands.length]? = some e ∧
        e.request = .selectOutput "1" ∧ e.task.result? = some result ∧
          result = .selected true ∧ ∃ before turn after, turns = before ++ turn :: after ∧
            (made.run before).IsTurnOf (made.run openingFirst).errands.length turn ∧
              Comes (made.run before).host ((made.run before).take turn).host e.request result) ∧
      (made.run turns).Alike ((Usage.made (0 : Rat) (⟨raisingPorts⟩ : Muffled Script)).run turns) ∧
      (made.run turns).host.notices.length = 18 := by
  intro made turns
  obtain ⟨hends, hcomes, halike⟩ := fails_only_to_list (0 : Rat) raisingPorts turns
  have hturns : 6 ≤ selecting.countP (Turn.resumes (made.run openingFirst).errands.length) := by
    decide +kernel
  obtain ⟨e, result, he, hrequest, hresult⟩ :=
    hends openingFirst (.selectOutput "1") selecting rfl hturns
  have hselected : (made.run turns).errands[(made.run openingFirst).errands.length]?.bind
      (·.task.result?) = some (.selected true) := by
    decide +kernel
  refine ⟨hturns, ⟨e, result, he, hrequest, hresult, ?_, hcomes _ e result he hresult⟩, halike, ?_⟩
  · rw [he, Option.bind_some, hresult] at hselected
    exact Option.some.inj hselected
  · decide +kernel

/-- An engine that raises an error when it is asked what there is. -/
def raisingEngine : Script where
  engines := []
  info := .null
  infoFault? := some ⟨"Error", "info failed"⟩
  ports := []
  sendFault? _ := none
  closeFault? := none

/-- **What an engine raises is passed on.** It makes listing the outputs fail, and selecting one;
only the initialization ends as it should. -/
theorem failing_to_list :
    let ended (request : Request) := ((Usage.made (0 : Rat) raisingEngine).run
      (.call request :: List.replicate 6 (.resume 0))).errands[0]?.bind (·.task.result?)
    ended .listOutputs = some (.failed ⟨"Error", "info failed"⟩) ∧
      ended (.selectOutput "0") = some (.failed ⟨"Error", "info failed"⟩) ∧
      ended .start = some (.initialized false) := by
  decide +kernel

end LeadSheet.Device
