import LeadSheet.Proofs.Sheet.Coherent
import LeadSheet.Proofs.Timeline.Balance

/-!
# Nothing sounds before the song

In exact arithmetic, what is read off a sheet is laid out from the start of the song on: sections
follow each other from the first bar, nothing in a section starts before it does, and no note or
chord ends before it starts (`seconds_nonneg_of_read`).
-/

namespace LeadSheet

/-! ## What is read -/

namespace Sheet

variable {v : Vocabulary Rat} {s : Score Rat}

theorem decimal_nonneg (m places : Nat) : (0 : Rat) ≤ Scalar.ofDecimal m places := by
  rw [Scalar.ofDecimal_rat]
  positivity

/-- Durations are not below zero if those of the vocabulary are not. -/
theorem duration_nonneg (hdurations : ∀ entry ∈ v.durations, 0 ≤ entry.2) (argument : List Char) :
    0 ≤ (Params.ofText v argument).duration :=
  (params_ofText (V := fun _ => True) hdurations (fun _ _ => trivial) (decimal_nonneg 1 0) trivial
    argument).1

theorem starts_nonneg (hdurations : ∀ entry ∈ v.durations, 0 ≤ entry.2) : Starts v (0 ≤ ·) where
  decimal := decimal_nonneg
  add := add_nonneg
  lasting argument hx := add_nonneg hx (duration_nonneg hdurations argument)
  sub_one {x} _ hle := by
    rw [Scalar.numeral_rat, Nat.cast_one] at hle ⊢
    linarith

/-- Sections that are placed from a bar on stand there or behind it. -/
theorem startBar_nonneg_of_mem_placeFrom {part : Section Rat} :
    ∀ {sections : List (Section Rat)} {bar : Rat}, 0 ≤ bar → (∀ s ∈ sections, 0 ≤ s.bars) →
      part ∈ placeFrom bar sections → 0 ≤ part.startBar
  | s :: rest, bar, hbar, hbars, hpart => by
    obtain ⟨hfirst, hrest⟩ := List.forall_mem_cons.mp hbars
    rcases List.mem_cons.mp hpart with rfl | hpart
    · exact hbar
    · exact startBar_nonneg_of_mem_placeFrom (add_nonneg hbar hfirst) hrest hpart

namespace ReadScore

variable {P : Rat → Prop} (h : ReadScore v P s)

include h

theorem tempo_pos : 0 < s.tempo := by
  obtain ⟨n, hn, htempo⟩ := h.tempo
  rw [htempo, Scalar.ofNat_rat]
  exact_mod_cast hn

theorem startBar_nonneg {part : Section Rat} (hpart : part ∈ s.sections) : 0 ≤ part.startBar := by
  obtain ⟨sections, -, hplaced, hread⟩ := h.sections
  rw [hplaced] at hpart
  have hzero : (0 : Rat) ≤ Scalar.ofNat 0 := decimal_nonneg 0 0
  refine startBar_nonneg_of_mem_placeFrom hzero (fun part hpart => ?_) hpart
  obtain ⟨bars, -, hbars⟩ := (hread part hpart).bars
  rw [hbars]
  exact decimal_nonneg bars 0

theorem readTrack {part : Section Rat} (hpart : part ∈ s.sections) {t : Track Rat}
    (ht : t ∈ part.tracks) : ReadTrack v P t := by
  obtain ⟨sections, -, hplaced, hread⟩ := h.sections
  rw [hplaced] at hpart
  obtain ⟨unplaced, hunplaced, startBar, rfl⟩ := exists_of_mem_placeFrom hpart
  exact (hread unplaced hunplaced).tracks t ht

theorem lasting (hdurations : ∀ entry ∈ v.durations, 0 ≤ entry.2) : s.Lasting where
  notes t ht n hn := by
    obtain ⟨part, hpart, ht⟩ := List.mem_flatMap.mp ht
    obtain ⟨_, _, argument, _, -, -, rfl⟩ := ((h.readTrack hpart ht).notes n hn).note
    exact duration_nonneg hdurations argument
  chords t ht c hc := by
    obtain ⟨part, hpart, ht⟩ := List.mem_flatMap.mp ht
    obtain ⟨_, argument, _, -, rfl⟩ := ((h.readTrack hpart ht).chords c hc).chord
    exact duration_nonneg hdurations argument

end ReadScore

end Sheet

/-! ## What is laid out -/

namespace Timeline

variable {s : Score Rat}

/-- No span starts before the song if no section does and nothing starts before its section. -/
theorem start_nonneg (w : Vocabulary Rat) (htempo : 0 < s.tempo)
    (hsections : ∀ part ∈ s.sections, 0 ≤ part.startBar)
    (hstarts : ∀ part ∈ s.sections, ∀ x ∈ part.starts, 0 ≤ x) {y : Span Rat}
    (hy : y ∈ spans w s) : 0 ≤ y.start := by
  obtain ⟨part, hpart, hy⟩ := List.mem_flatMap.mp hy
  have hsection : 0 ≤ secondsOf s.tempo part.startBeat :=
    secondsOf_nonneg htempo (mul_nonneg (hsections part hpart) (Sheet.decimal_nonneg _ 0))
  have hstart {x : Rat} (hx : x ∈ part.starts) :
      0 ≤ secondsOf s.tempo part.startBeat + secondsOf s.tempo x :=
    add_nonneg hsection (secondsOf_nonneg htempo (hstarts part hpart x hx))
  unfold Section.starts at hstart
  rcases List.mem_append.mp hy with hy | hy
  · obtain ⟨t, ht, hy⟩ := List.mem_flatMap.mp hy
    have htrack {x : Rat} (hx : x ∈ t.notes.map (·.start) ++ t.chords.map (·.start)) :
        0 ≤ secondsOf s.tempo part.startBeat + secondsOf s.tempo x :=
      hstart (List.mem_append_left _ (List.mem_flatMap.mpr ⟨t, ht, hx⟩))
    rcases List.mem_append.mp hy with hy | hy
    · obtain ⟨n, hn, rfl⟩ := List.mem_map.mp hy
      exact htrack (List.mem_append_left _ (List.mem_map_of_mem hn))
    · obtain ⟨c, hc, hy⟩ := List.mem_flatMap.mp hy
      obtain ⟨pitch, _, rfl⟩ := List.mem_map.mp hy
      exact htrack (List.mem_append_right _ (List.mem_map_of_mem hc))
  · cases hdrums : part.drums with
    | none =>
      rw [hdrums] at hy
      cases hy
    | some drums =>
      rw [hdrums] at hy hstart
      obtain ⟨hit, hhit, rfl⟩ := List.mem_map.mp hy
      exact hstart (List.mem_append_right _
        (List.mem_flatMap.mpr ⟨drums, List.mem_singleton_self _, List.mem_map_of_mem hhit⟩))

/-- **What is read off a sheet does not sound before the song.** -/
theorem seconds_nonneg_of_read {v : Vocabulary Rat}
    (hdurations : ∀ entry ∈ v.durations, 0 ≤ entry.2) (w : Vocabulary Rat) {text : String}
    (hread : (Sheet.read v text).outcome = .ok s) {e : TimedEvent Rat}
    (he : e ∈ (ofScore w s).events) : 0 ≤ e.seconds := by
  have hscore := Sheet.readScore_of_read (Sheet.starts_nonneg hdurations) hread
  rw [← (ofScore_stable w s).perm.mem_iff, enumerate_eq] at he
  obtain ⟨y, hy, he⟩ := List.mem_flatMap.mp he
  have hstart := start_nonneg w hscore.tempo_pos (fun part hpart => hscore.startBar_nonneg hpart)
    hscore.starts hy
  have hstop := start_le_stop w hscore.tempo_pos (hscore.lasting hdurations) hy
  simp only [Span.events, pair, List.mem_cons, List.not_mem_nil, or_false] at he
  rcases he with rfl | rfl
  · exact hstart
  · exact hstart.trans hstop

end Timeline

end LeadSheet
