import LeadSheet.Proofs.Number.Sums
import LeadSheet.Proofs.Sheet.Lines
import LeadSheet.Proofs.Sheet.Saved

/-!
# Sheets without warnings keep to their bars

A pattern is warned of if it has more bars than its section. So in a sheet without warnings every
slot with something in it is one of the section's bars, and what begins within the four beats of its
own slot begins before the section ends (`starts_within_bars`). On doubles a start is rounded, and
may come to lie right at the end, but no further.

Slots are not looked into, though. Entries that last too long together run on into the next bar, and
a drum may name a beat that the bar does not have, so that in the last bar both can leave the
section without a warning (`start_behind_section`).
-/

namespace LeadSheet.Sheet

variable {α : Type} [Scalar α] {v : Vocabulary α}

/-- Something begins in the slot with this index of a line, so far behind the first beat of the
slot's bar: an entry when those before it have ended, and a drum on its beats. -/
inductive Begins (v : Vocabulary α) (lines : List Line) (index : Nat) : α → Prop where
  | entry {word pattern : List Char} {before : List Entry} {e : Entry}
      (hline : .instrument word pattern ∈ lines) (he : EntryAt pattern index before e) :
      Begins v lines index (offsetBehind v 0 before)
  | beat {pattern : List Char} {offset : α} (hline : .drums pattern ∈ lines)
      (hbeat : BeatAt pattern index offset) : Begins v lines index offset

/-- Where a note or a chord starts. -/
def Sounding.start : Sounding α → α
  | .note n => n.start
  | .chord c => c.start

theorem start_soundingOf (word : List Char) (start : α) (p : Params α) :
    (soundingOf v word start p).start = start := by
  unfold soundingOf
  split <;> rfl

/-- What begins in a section begins in a slot that is one of its bars, if nothing was warned of. -/
theorem FromLines.exists_begins {lines : List Line} {bars : Nat} {quiet : Prop} {part : Section α}
    (h : FromLines v lines bars quiet part.tracks part.drums) (hquiet : quiet) :
    ∀ x ∈ part.starts, ∃ index < bars, ∃ offset, Begins v lines index offset ∧
      x = barStart index + offset := by
  intro x hx
  rcases List.mem_append.mp hx with hx | hx
  · obtain ⟨t, ht, hx⟩ := List.mem_flatMap.mp hx
    obtain ⟨word, pattern, hline, hnotes, hchords, hused⟩ := h.tracks t ht
    rcases List.mem_append.mp hx with hx | hx
    · obtain ⟨n, hn, rfl⟩ := List.mem_map.mp hx
      obtain ⟨index, before, e, he, hindex, hsounding⟩ := exists_entryAt_note (hnotes ▸ hn)
      exact ⟨index, hindex.trans_le (hused hquiet), _, .entry hline he,
        (congrArg Sounding.start hsounding).trans (start_soundingOf ..)⟩
    · obtain ⟨c, hc, rfl⟩ := List.mem_map.mp hx
      obtain ⟨index, before, e, he, hindex, hsounding⟩ := exists_entryAt_chord (hchords ▸ hc)
      exact ⟨index, hindex.trans_le (hused hquiet), _, .entry hline he,
        (congrArg Sounding.start hsounding).trans (start_soundingOf ..)⟩
  · obtain ⟨d, hd, hx⟩ := List.mem_flatMap.mp hx
    obtain ⟨hit, hhit, rfl⟩ := List.mem_map.mp hx
    obtain ⟨pattern, hline, hhit, hused⟩ := h.drums d (Option.mem_toList.mp hd) hit hhit
    obtain ⟨index, offset, hbeat, hindex, hstart⟩ := exists_beatAt hhit
    exact ⟨index, hindex.trans_le (hused hquiet), offset, .beat hline hbeat, hstart⟩

/-- Offsets have every property that is kept by working starts out. -/
theorem Begins.offset {P : α → Prop} (h : Starts v P) {lines : List Line} {index : Nat} {offset : α}
    (hbegins : Begins v lines index offset) : P offset := by
  cases hbegins with
  | entry hline he =>
    unfold offsetBehind
    exact List.foldlRecOn (motive := P) _ _ (h.decimal 0 0) fun _ hx e _ => h.lasting e.argument hx
  | beat hline hbeat =>
    obtain ⟨slot, e, beats, -, -, hbeats, hoffset⟩ := hbeat
    exact (beats_ofText? h hbeats).1 offset hoffset

/-! ## Exact fractions -/

theorem barStart_rat (index : Nat) : (barStart index : Rat) = 4 * index := by
  unfold barStart
  rw [Scalar.ofNat_rat]
  push_cast
  rfl

theorem beats_rat (part : Section Rat) : part.beats = part.bars * 4 := by
  unfold Section.beats
  rw [Scalar.ofNat_rat]
  rfl

/-! ## Doubles -/

/-- What begins within the beats of a bar does not begin behind a section that has the bar. -/
theorem barStart_add_le {index bars : Nat} (hindex : index < bars) {offset : Float}
    (hoffset : Scalar.ofNat 0 ≤ offset) (hlt : offset < Scalar.ofNat beatsPerBar) :
    barStart index + offset ≤ (Scalar.ofNat bars : Float) * Scalar.ofNat beatsPerBar := by
  have hend : (Scalar.ofNat bars : Float) * Scalar.ofNat beatsPerBar = Scalar.ofNat (4 * bars) :=
    Double.ofNat_mul_four (by omega)
  rw [hend]
  exact Double.ofNat_mul_four_add_le hindex hoffset hlt

/-! ## Sheets -/

/-- **A sheet without warnings keeps to its bars.** Whatever begins in a section of it begins in a
slot of one of the section's lines that is one of the section's bars, so far behind the first beat
of that bar as the entries before it in the slot last, or as the beat of a drum says. In exact
arithmetic it begins before the section ends if and only if that is less than what is left of the
section at the bar; so it does if it is less than the four beats of the bar itself. On doubles, and
if no duration of the vocabulary is below zero, it then does not begin behind the end. -/
theorem starts_within_bars (text : String) :
    (∀ (v : Vocabulary Rat) s, (read v text).outcome = .ok s → (read v text).warnings = [] →
      ∀ part ∈ s.sections, ∃ piece ∈ sectionPieces (clean (repair text.toList)), ∃ bars : Nat,
        part.bars = bars ∧ ∀ x ∈ part.starts, ∃ index < bars, ∃ offset,
          Begins v (linesOf piece) index offset ∧ x = 4 * index + offset ∧
            (x < part.beats ↔ offset < 4 * (bars - index)) ∧ (offset < 4 → x < part.beats)) ∧
    ∀ (v : Vocabulary Float) s, (∀ entry ∈ v.durations, 0 ≤ entry.2) →
      (read v text).outcome = .ok s → (read v text).warnings = [] →
      ∀ part ∈ s.sections, ∃ piece ∈ sectionPieces (clean (repair text.toList)), ∃ bars : Nat,
        part.bars = Scalar.ofNat bars ∧ ∀ x ∈ part.starts, ∃ index < bars, ∃ offset,
          Begins v (linesOf piece) index offset ∧ x = barStart index + offset ∧
            (offset < Scalar.ofNat beatsPerBar → x ≤ part.beats) := by
  constructor
  · intro v s hs hquiet part hpart
    obtain ⟨piece, hpiece, bars, hbars, hlines⟩ := fromLines_of_outcome hs hpart
    rw [Scalar.ofNat_rat] at hbars
    refine ⟨piece, hpiece, bars, hbars, fun x hx => ?_⟩
    obtain ⟨index, hindex, offset, hbegins, rfl⟩ := hlines.exists_begins hquiet x hx
    have hleft : (index : Rat) + 1 ≤ bars := by exact_mod_cast hindex
    rw [barStart_rat, beats_rat, hbars]
    refine ⟨index, hindex, offset, hbegins, rfl, ?_, fun hlt => by linarith⟩
    constructor <;> intro hlt <;> linarith
  · intro v s hdurations hs hquiet part hpart
    obtain ⟨piece, hpiece, bars, hbars, hlines⟩ := fromLines_of_outcome hs hpart
    refine ⟨piece, hpiece, bars, hbars, fun x hx => ?_⟩
    obtain ⟨index, hindex, offset, hbegins, rfl⟩ := hlines.exists_begins hquiet x hx
    have hoffset := (hbegins.offset (starts_unsigned hdurations)).zero_le
    refine ⟨index, hindex, offset, hbegins, rfl, fun hlt => ?_⟩
    unfold Section.beats
    rw [hbars]
    exact barStart_add_le hindex hoffset hlt

/-- A sheet in which nothing is too long for its bar. -/
def fittingSheet : List Char :=
  ("SECTION: A [2 bars]\nPIANO: C4(q) Am(h) | E4(q)\n"
    ++ "DRUMS: kick(1,3.5) | snare(4.5)\n").toList

theorem starts_within_bars_fittingSheet :
    (∃ s : Score Rat, (read Vocabulary.standard (String.ofList fittingSheet)).outcome = .ok s ∧
      (read (Vocabulary.standard : Vocabulary Rat) (String.ofList fittingSheet)).warnings = [] ∧
      s.sections.flatMap (·.starts) = [0, 4, 1, 0, 5 / 2, 15 / 2] ∧
      ∀ part ∈ s.sections, ∀ x ∈ part.starts, ∃ index : Nat, ∃ offset, x = 4 * index + offset ∧
        (offset < 4 → x < part.beats)) ∧
    ∃ s : Score Float, (∀ entry ∈ (Vocabulary.standard : Vocabulary Float).durations,
        0 ≤ entry.2) ∧
      (read Vocabulary.standard (String.ofList fittingSheet)).outcome = .ok s ∧
      (read (Vocabulary.standard : Vocabulary Float) (String.ofList fittingSheet)).warnings = [] ∧
      ∀ part ∈ s.sections, ∀ x ∈ part.starts, ∃ index : Nat, ∃ offset,
        x = barStart index + offset ∧ (offset < Scalar.ofNat beatsPerBar → x ≤ part.beats) := by
  obtain ⟨hexact, hrounded⟩ := starts_within_bars (String.ofList fittingSheet)
  have hcontent : Text.isBlankText (clean (repair fittingSheet)) = false := by decide +kernel
  constructor
  · have hread : (readCleaned (Vocabulary.standard : Vocabulary Rat)
        (clean (repair fittingSheet))).outcome.toOption.any (fun s =>
          s.sections.flatMap (·.starts) == [0, 4, 1, 0, 5 / 2, 15 / 2]) = true := by
      decide +kernel
    obtain ⟨s, hs, hstarts⟩ := exists_of_outcome hread
    have hs := (outcome_read_ofList _ hcontent).trans hs
    have hnone : (readCleaned (Vocabulary.standard : Vocabulary Rat)
        (clean (repair fittingSheet))).warnings = [] := by
      decide +kernel
    have hquiet := (warnings_read_ofList _ hcontent).trans hnone
    refine ⟨s, hs, hquiet, beq_iff_eq.mp hstarts, fun part hpart x hx => ?_⟩
    obtain ⟨_, _, _, _, hbars⟩ := hexact _ s hs hquiet part hpart
    obtain ⟨index, -, offset, -, hx, -, hinside⟩ := hbars x hx
    exact ⟨index, offset, hx, hinside⟩
  · have hread : (readCleaned (Vocabulary.standard : Vocabulary Float)
        (clean (repair fittingSheet))).outcome.toOption.any (fun _ => true) = true := by
      decide +kernel
    obtain ⟨s, hs, -⟩ := exists_of_outcome hread
    have hs := (outcome_read_ofList _ hcontent).trans hs
    have hnone : (readCleaned (Vocabulary.standard : Vocabulary Float)
        (clean (repair fittingSheet))).warnings = [] := by
      decide +kernel
    have hquiet := (warnings_read_ofList _ hcontent).trans hnone
    have hdurations : ∀ entry ∈ (Vocabulary.standard : Vocabulary Float).durations, 0 ≤ entry.2 :=
      fun entry hentry =>
        (Vocabulary.unsignedTables_standard.durations entry hentry).1.zero_le
    refine ⟨s, hdurations, hs, hquiet, fun part hpart x hx => ?_⟩
    obtain ⟨_, _, _, _, hbars⟩ := hrounded _ s hdurations hs hquiet part hpart
    obtain ⟨index, -, offset, -, hx, hinside⟩ := hbars x hx
    exact ⟨index, offset, hx, hinside⟩

/-- A sheet that is read without a warning, though something in it does not begin before its section
ends. -/
def RunsOver (text : List Char) : Prop :=
  ∃ s : Score Float, (read Vocabulary.standard (String.ofList text)).outcome = .ok s ∧
    (read (Vocabulary.standard : Vocabulary Float) (String.ofList text)).warnings = [] ∧
    ∃ part ∈ s.sections, ∃ x ∈ part.starts, ¬x < part.beats

theorem runsOver_of_readCleaned {text : List Char}
    (hcontent : Text.isBlankText (clean (repair text)) = false)
    (hquiet : (readCleaned (Vocabulary.standard : Vocabulary Float)
      (clean (repair text))).warnings = [])
    (hread : (readCleaned (Vocabulary.standard : Vocabulary Float)
      (clean (repair text))).outcome.toOption.any (fun s => s.sections.any fun part =>
        part.starts.any fun x => !decide (x < part.beats)) = true) : RunsOver text := by
  obtain ⟨s, hs, hbehind⟩ := exists_of_outcome hread
  obtain ⟨part, hpart, hstarts⟩ := List.any_eq_true.mp hbehind
  obtain ⟨x, hx, hnot⟩ := List.any_eq_true.mp hstarts
  refine ⟨s, (outcome_read_ofList _ hcontent).trans hs,
    (warnings_read_ofList _ hcontent).trans hquiet, part, hpart, x, hx, ?_⟩
  simpa using hnot

/-- A note behind one that fills the only bar. -/
def lateNote : List Char := "SECTION: A [1 bars]\nPIANO: C4(w) D4(q)\n".toList

/-- A beat that the only bar does not have. -/
def lateBeat : List Char := "SECTION: A [1 bars]\nDRUMS: kick(5)\n".toList

/-- A beat of the last bar that is rounded to the end of the bar. -/
def roundedBeat : List Char := "SECTION: A [3 bars]\nDRUMS: | | kick(4.999999999999999)\n".toList

/-- Nothing is said of what begins behind the section that it is in. -/
theorem start_behind_section : RunsOver lateNote ∧ RunsOver lateBeat ∧ RunsOver roundedBeat := by
  refine ⟨?_, ?_, ?_⟩
  · exact runsOver_of_readCleaned (by decide +kernel) (by decide +kernel) (by decide +kernel)
  · exact runsOver_of_readCleaned (by decide +kernel) (by decide +kernel) (by decide +kernel)
  · exact runsOver_of_readCleaned (by decide +kernel) (by decide +kernel) (by decide +kernel)

end LeadSheet.Sheet
