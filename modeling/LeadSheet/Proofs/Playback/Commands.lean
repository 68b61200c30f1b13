import LeadSheet.Proofs.Playback.Replies
import Mathlib.Tactic.Common

/-!
# What a player's commands add up to

Every operation of a player answers with a list of commands, and what matters of a list is little:
whether the loop runs behind it, and whether anything was scheduled since the synthesizer was
silenced. A `Watch` holds these two, and goes along a list command by command.

The loop runs while the player plays and at no other time, and it is never started twice. Whatever
takes a player out of playing silences the synthesizer last (`Watch.LeadsTo`, one lemma for each
operation).
-/

namespace LeadSheet.Playback

/-- What commands have brought about. -/
structure Watch where
  /-- Whether the loop runs. -/
  looping : Bool
  /-- Whether nothing was scheduled since the synthesizer was silenced. -/
  quiet : Bool
  deriving DecidableEq, Repr

variable {α : Type}

namespace Watch

/-- What a command changes; a loop that runs must not be started. -/
def step? (w : Watch) : Command α → Option Watch
  | .order (.setup _) => some w
  | .order (.schedule _ _) => some { w with quiet := false }
  | .order .cancelAll | .order .dispose => some { w with quiet := true }
  | .startLoop _ => if w.looping then none else some { w with looping := true }
  | .stopLoop => some { w with looping := false }

theorem of_step?_startLoop {w next : Watch} {period : α}
    (h : w.step? (.startLoop period) = some next) :
    w.looping = false ∧ next = { w with looping := true } := by
  change (if w.looping then none else some { w with looping := true }) = some next at h
  split at h
  · cases h
  · next hidle => exact ⟨Bool.eq_false_iff.mpr hidle, (Option.some.inj h).symm⟩

/-- What commands change, one after the other. -/
def run? (w : Watch) (commands : List (Command α)) : Option Watch := commands.foldlM step? w

/-- What a watch says of a player. -/
structure Fits (w : Watch) (p : Player α) : Prop where
  looping_iff : w.looping = true ↔ p.mode = .playing
  quiet : p.mode ≠ .playing → w.quiet = true

/-- The commands of a reply lead to a watch that fits the player behind it. -/
def LeadsTo (w : Watch) (r : Reply α) : Prop :=
  ∃ next, w.run? r.commands = some next ∧ next.Fits r.player

theorem run?_append {w between : Watch} {commands : List (Command α)} (more : List (Command α))
    (h : w.run? commands = some between) : w.run? (commands ++ more) = between.run? more := by
  rw [run?, List.foldlM_append]
  change ((w.run? commands).bind fun between => between.run? more) = between.run? more
  rw [h, Option.bind_some]

theorem LeadsTo.after {w between : Watch} {commands : List (Command α)} {r : Reply α}
    (h : between.LeadsTo r) (hcommands : w.run? commands = some between) :
    w.LeadsTo (r.after commands) := by
  obtain ⟨next, hrun, hfits⟩ := h
  exact ⟨next, (run?_append _ hcommands).trans hrun, hfits⟩

theorem Fits.not_looping {w : Watch} {p : Player α} (h : w.Fits p) (hrest : p.mode ≠ .playing) :
    w.looping = false :=
  Bool.eq_false_iff.mpr fun hlooping => hrest (h.looping_iff.mp hlooping)

/-- Where nothing is asked for, all stays as it is. -/
theorem Fits.leadsTo_nil {w : Watch} {p next : Player α} (h : w.Fits p)
    (hmode : next.mode = p.mode) : w.LeadsTo ⟨next, [], false⟩ :=
  ⟨w, rfl, by rw [hmode]; exact h.looping_iff, by rw [hmode]; exact h.quiet⟩

/-! ## The loop -/

section

variable [Scalar α] (p : Player α) {w : Watch} (now : α)

/-- Handing events over ends the quiet, if it does anything. -/
theorem run?_dispatch (events : List (TimedEvent α)) :
    ∃ quiet, w.run? (events.filterMap (p.dispatch? now)) = some { w with quiet } := by
  induction events generalizing w with
  | nil => exact ⟨w.quiet, rfl⟩
  | cons event rest ih =>
    rw [List.filterMap_cons]
    split
    · exact ih
    · next command hsome =>
      obtain ⟨time, rfl⟩ := Player.of_dispatch? hsome
      exact ih

variable {p}

theorem Fits.tick (h : w.Fits p) : w.LeadsTo (p.tick now) := by
  unfold Player.tick
  split
  · next hplaying =>
    obtain ⟨quiet, hrun⟩ := run?_dispatch p (w := w) now (p.upcoming now)
    dsimp only
    split
    · -- at the end of the song the loop is stopped and the synthesizer silenced
      exact ⟨⟨false, true⟩, (run?_append _ hrun).trans rfl, by simp [Player.rewound], fun _ => rfl⟩
    · exact ⟨_, hrun, h.looping_iff, fun hrest => absurd hplaying hrest⟩
  · exact h.leadsTo_nil rfl

/-! ## Sounds -/

variable (p) in
omit [Scalar α] in
/-- Giving channels their sounds changes nothing that matters. -/
theorem run?_setups : w.run? p.setups = some w := by
  unfold Player.setups
  induction p.timeline.channels with
  | nil => rfl
  | cons a rest ih =>
    rw [List.filterMap_cons]
    split
    · exact ih
    · next command hsome =>
      obtain ⟨sound, -, rfl⟩ := Option.map_eq_some_iff.mp hsome
      exact ih

omit [Scalar α] in
theorem Fits.setSound (h : w.Fits p) (track : String) (change : SoundChange α) :
    w.LeadsTo (p.setSound track change) := by
  unfold Player.setSound
  split
  · exact ⟨w, rfl, h.looping_iff, h.quiet⟩
  · exact h.leadsTo_nil rfl

/-! ## Transport -/

theorem Fits.play (h : w.Fits p) : w.LeadsTo (p.play now) := by
  unfold Player.play
  split
  · exact h.leadsTo_nil rfl
  · next hrest =>
    -- the watch is taken through what comes before the first round
    have hfirst : w.run? (if p.mode = .stopped then p.setups else []) = some w := by
      split
      · exact run?_setups p
      · rfl
    have hstart : w.run? [.startLoop p.period] = some { w with looping := true } := by
      simp [run?, step?, h.not_looping hrest]
    refine LeadsTo.after (Fits.tick now ?_) ((run?_append _ hfirst).trans hstart)
    exact ⟨by simp, fun hstill => absurd rfl hstill⟩

theorem Fits.pause (h : w.Fits p) : w.LeadsTo (p.pause now) := by
  unfold Player.pause
  split
  · exact ⟨⟨false, true⟩, rfl, by simp, fun _ => rfl⟩
  · exact h.leadsTo_nil rfl

/-- A player that is stopped already has silenced the synthesizer. -/
theorem Fits.stop (h : w.Fits p) : w.LeadsTo p.stop := by
  unfold Player.stop
  split
  · next hstopped =>
    have hquiet : w.quiet = true := h.quiet (by simp [hstopped])
    exact ⟨{ w with looping := false }, rfl, by simp [Player.rewound], fun _ => hquiet⟩
  · exact ⟨⟨false, true⟩, rfl, by simp [Player.rewound], fun _ => rfl⟩

theorem Fits.seek (h : w.Fits p) (seconds : α) : w.LeadsTo (p.seek now seconds) := by
  unfold Player.seek
  dsimp only
  split
  · next hplaying =>
    have hsilenced : w.run? [.order (.cancelAll : Order α)] = some { w with quiet := true } := rfl
    refine LeadsTo.after (Fits.tick now ?_) hsilenced
    exact ⟨h.looping_iff, fun _ => rfl⟩
  · exact h.leadsTo_nil rfl

theorem Fits.load (h : w.Fits p) (timeline : Timeline α) (changes : List (String × SoundChange α)) :
    w.LeadsTo (p.load timeline changes) := by
  obtain ⟨next, hrun, hfits⟩ := h.stop
  exact ⟨next, hrun, hfits.looping_iff, hfits.quiet⟩

theorem Fits.dispose (h : w.Fits p) : w.LeadsTo p.dispose := by
  obtain ⟨next, hrun, hfits⟩ := h.stop
  exact ⟨{ next with quiet := true }, (run?_append _ hrun).trans rfl, hfits.looping_iff,
    fun _ => rfl⟩

end

end Watch

end LeadSheet.Playback
