import LeadSheet.Proofs.Document.Saved
import LeadSheet.Proofs.Sheet.Coherent

/-!
# What was read from a sheet can be saved

A sheet has no minus sign, so all numbers of a score that was read are unsigned, and its lengths are
above zero. Of what a document asks for, this leaves only that the numbers are finite; and that is
not sure, since a sheet may have any number of digits in its tempo, in the bars of a section and in
the beat of a drum. If they are finite, the text of the score loads as the score; if one of them is
not, no layout and no options make it load again (`loadText_read`).
-/

namespace LeadSheet

open Double

/-! ## Unsigned numbers of a vocabulary -/

namespace Vocabulary

variable {v : Vocabulary Float}

/-- Durations are above zero, and no other number of the tables a sheet's patterns are read with has
a minus sign. -/
structure UnsignedTables (v : Vocabulary Float) : Prop where
  durations : ∀ entry ∈ v.durations, Unsigned entry.2 ∧ 0 < entry.2
  dynamics : ∀ entry ∈ v.dynamics, Unsigned entry.2
  semitones : ∀ entry ∈ v.semitones, Unsigned entry.2

theorem unsignedTables_standard : (standard : Vocabulary Float).UnsignedTables where
  durations entry h := by
    have hpos : ∀ entry ∈ (defaultDurations : List (String × Float)), 0 < entry.2 := by
      decide +kernel
    have hunsigned : ∀ entry ∈ (defaultDurations : List (String × Float)), Unsigned entry.2 := by
      simp [defaultDurations, unsigned_ofDecimal]
      and_intros <;> exact unsigned_numeral _
    exact ⟨hunsigned entry h, hpos entry h⟩
  dynamics := by
    simp [standard, defaultDynamics, unsigned_ofDecimal]
    exact unsigned_numeral 1
  semitones := by
    simp [standard, defaultSemitones]
    and_intros <;> exact unsigned_numeral _

namespace UnsignedTables

variable (hv : v.UnsignedTables)

include hv

theorem semitoneOf (name : String) : Unsigned (semitoneOf v name) := by
  unfold LeadSheet.semitoneOf
  match hlookup : v.semitones.lookup (String.ofList (spellPitchClass name.toList)) with
  | none => exact unsigned_numeral 0
  | some semitones =>
    have hsemitones := hv.semitones _ (mem_of_lookup hlookup)
    exact hsemitones

theorem pitchOf (name : String) {octave : Float} (hoctave : Unsigned octave) :
    Unsigned (pitchOf v name octave) := by
  have hproduct : Unsigned ((octave + Scalar.ofNat 1) * Scalar.ofNat 12) :=
    (hoctave.add (unsigned_ofDecimal 1 0).zero_le).mul unpack_ofNat_twelve
  exact (hv.semitoneOf name).add hproduct.zero_le

theorem token {word : List Char} {token : NoteToken Float}
    (h : NoteToken.ofText? v word = some token) : Unsigned token.pitch := by
  unfold NoteToken.ofText? at h
  split at h
  · split at h
    · cases h
      exact hv.pitchOf _ (unsigned_ofDecimal _ 0)
    · cases h
  · cases h

theorem params (argument : List Char) :
    (Unsigned (Sheet.Params.ofText v argument).duration ∧
      0 < (Sheet.Params.ofText v argument).duration) ∧
      Unsigned (Sheet.Params.ofText v argument).velocity :=
  Sheet.params_ofText (D := fun x => Unsigned x ∧ 0 < x) (V := Unsigned) hv.durations hv.dynamics
    ⟨unsigned_numeral 1, zero_lt_ofNat one_pos⟩ (unsigned_ofDecimal _ _) argument

theorem starts : Sheet.Starts v Unsigned :=
  Sheet.starts_unsigned fun entry hentry => (hv.durations entry hentry).1.zero_le

end UnsignedTables

end Vocabulary

/-! ## Unsigned numbers of a score -/

namespace Sheet

section

variable {v : Vocabulary Float} (hv : v.UnsignedTables)

include hv

theorem unsigned_note {n : Note Float} (h : Laid v Unsigned (.note n)) :
    (∀ x ∈ n.numbers, Unsigned x) ∧ 0 < n.duration := by
  obtain ⟨word, token, argument, start, htoken, hstart, rfl⟩ := h.note
  obtain ⟨⟨hduration, hpos⟩, hvelocity⟩ := hv.params argument
  exact ⟨Note.forall_numbers.mpr ⟨hv.token htoken, hstart, hduration, hvelocity⟩, hpos⟩

theorem unsigned_chord {c : Chord Float} (h : Laid v Unsigned (.chord c)) :
    (∀ x ∈ c.numbers, Unsigned x) ∧ 0 < c.duration := by
  obtain ⟨word, argument, start, hstart, rfl⟩ := h.chord
  obtain ⟨⟨hduration, hpos⟩, hvelocity⟩ := hv.params argument
  exact ⟨Chord.forall_numbers.mpr ⟨unsigned_ofDecimal _ 0, hstart, hduration, hvelocity⟩, hpos⟩

theorem unsigned_track {t : Track Float} (h : ReadTrack v Unsigned t) :
    (∀ x ∈ t.numbers, Unsigned x) ∧ ∀ x ∈ t.lengths, 0 < x := by
  constructor
  · refine Track.forall_numbers.mpr ⟨fun n hn => (unsigned_note hv (h.notes n hn)).1,
      fun c hc => (unsigned_chord hv (h.chords c hc)).1, ?_, ?_⟩
    · exact h.volume ▸ unsigned_ofDecimal _ _
    · exact h.pan ▸ unsigned_ofDecimal _ _
  · exact Track.forall_lengths.mpr ⟨fun n hn => (unsigned_note hv (h.notes n hn)).2,
      fun c hc => (unsigned_chord hv (h.chords c hc)).2⟩

omit hv in
theorem unsigned_drums {d : DrumTrack Float} (h : ReadDrums Unsigned d) :
    ∀ x ∈ d.numbers, Unsigned x := by
  refine DrumTrack.forall_numbers.mpr ⟨fun hit hhit => DrumHit.forall_numbers.mpr ?_, ?_⟩
  · obtain ⟨hstart, m, hvelocity⟩ := h.hits hit hhit
    exact ⟨hstart, hvelocity ▸ unsigned_ofDecimal _ _⟩
  · exact h.volume ▸ unsigned_ofDecimal _ _

theorem unsigned_section {key : String} {tempo startBar : Float} (htempo : Unsigned tempo)
    (hpos : 0 < tempo) {s : Section Float} (h : ReadSection v Unsigned key tempo s)
    (hstart : Unsigned startBar) :
    (∀ x ∈ { s with startBar }.numbers, Unsigned x) ∧ ∀ x ∈ { s with startBar }.lengths, 0 < x := by
  obtain ⟨n, hn, hbars⟩ := h.bars
  constructor
  · refine Section.forall_numbers.mpr ⟨?_, hstart, fun x hx => ?_,
      fun t ht => (unsigned_track hv (h.tracks t ht)).1, fun d hd => unsigned_drums (h.drums d hd)⟩
    · exact hbars ▸ unsigned_ofDecimal _ _
    · exact Option.some.inj (h.tempo.symm.trans hx) ▸ htempo
  · refine Section.forall_lengths.mpr ⟨?_, fun x hx => ?_,
      fun t ht => (unsigned_track hv (h.tracks t ht)).2⟩
    · exact hbars ▸ zero_lt_ofNat hn
    · exact Option.some.inj (h.tempo.symm.trans hx) ▸ hpos

omit hv in
/-- Sections that are placed from an unsigned bar on have unsigned places. -/
theorem exists_of_mem_placed {sections : List (Section Float)}
    (hbars : ∀ s ∈ sections, Unsigned s.bars) {bar : Float} (hbar : Unsigned bar)
    {part : Section Float} (h : part ∈ placeFrom bar sections) :
    ∃ s ∈ sections, ∃ startBar, Unsigned startBar ∧ part = { s with startBar } := by
  induction sections generalizing bar with
  | nil => exact absurd h List.not_mem_nil
  | cons s rest ih =>
    obtain ⟨hs, hrest⟩ := List.forall_mem_cons.mp hbars
    rcases List.mem_cons.mp h with rfl | h
    · exact ⟨s, List.mem_cons_self, bar, hbar, rfl⟩
    · obtain ⟨s', hs', startBar, hstart, rfl⟩ := ih hrest (hbar.add hs.zero_le) h
      exact ⟨s', List.mem_cons_of_mem _ hs', startBar, hstart, rfl⟩

/-- **No number of a score that was read has a minus sign, and its lengths are above zero.** -/
theorem unsigned_score {s : Score Float} (h : ReadScore v Unsigned s) :
    (∀ x ∈ s.numbers, Unsigned x) ∧ ∀ x ∈ s.lengths, 0 < x := by
  obtain ⟨tempo, htempoPos, htempo⟩ := h.tempo
  obtain ⟨sections, -, hplaced, hread⟩ := h.sections
  have hunsigned : Unsigned s.tempo := htempo ▸ unsigned_ofDecimal _ _
  have hpos : 0 < s.tempo := htempo ▸ zero_lt_ofNat htempoPos
  have hbars : ∀ part ∈ sections, Unsigned part.bars := fun part hpart => by
    obtain ⟨n, -, hbars⟩ := (hread part hpart).bars
    exact hbars ▸ unsigned_ofDecimal _ _
  have hpart : ∀ part ∈ s.sections,
      (∀ x ∈ part.numbers, Unsigned x) ∧ ∀ x ∈ part.lengths, 0 < x := by
    intro part hpart
    rw [hplaced] at hpart
    obtain ⟨s', hs', startBar, hstart, rfl⟩ :=
      exists_of_mem_placed hbars (unsigned_ofDecimal 0 0) hpart
    exact unsigned_section hv hunsigned hpos (hread s' hs') hstart
  exact ⟨Score.forall_numbers.mpr ⟨hunsigned, fun part h => (hpart part h).1⟩,
    Score.forall_lengths.mpr ⟨hpos, fun part h => (hpart part h).2⟩⟩

end

/-! ## Saving -/

/-- **What was read can be saved if and only if all its numbers are finite.** If they are, the text
of the score loads as the score, without a warning, in any layout and with any options and
migrations; if not, nothing makes it load again. -/
theorem loadText_read (registry : Schema.Registry) (options : Document.LoadOptions)
    (layout : Json.Layout) {text : String} {s : Score Float}
    (hs : (read Vocabulary.standard text).outcome = .ok s) :
    ((∀ x ∈ s.numbers, Scalar.isFinite x = true) →
      Document.loadText registry options (Document.text s layout).toList = ⟨.ok s, []⟩) ∧
    ((¬∀ x ∈ s.numbers, Scalar.isFinite x = true) →
      (Document.loadText registry options (Document.text s layout).toList).outcome ≠ .ok s) := by
  have hv := Vocabulary.unsignedTables_standard
  obtain ⟨hunsigned, hpos⟩ := unsigned_score hv (readScore_of_read hv.starts hs)
  refine ⟨fun hfinite => ?_, fun hfinite hload => hfinite ?_⟩
  · exact Document.loadText_text registry options layout ⟨hfinite, hpos⟩
      fun x hx => (hunsigned x hx).writable (hfinite x hx)
  · exact (Document.storable_of_loadText hload).finite

/-! ## Two sheets -/

theorem outcome_read_ofList {α : Type} [Scalar α] (v : Vocabulary α) {text : List Char}
    (h : Text.isBlankText (clean (repair text)) = false) :
    (read v (String.ofList text)).outcome = (readCleaned v (clean (repair text))).outcome := by
  unfold read
  dsimp only
  rw [String.toList_ofList, if_neg (Bool.eq_false_iff.mp h)]

theorem warnings_read_ofList {α : Type} [Scalar α] (v : Vocabulary α) {text : List Char}
    (h : Text.isBlankText (clean (repair text)) = false) :
    (read v (String.ofList text)).warnings = (readCleaned v (clean (repair text))).warnings := by
  unfold read
  dsimp only
  rw [String.toList_ofList, if_neg (Bool.eq_false_iff.mp h)]

/-- A condition on a score that is given shows that there is one. -/
theorem exists_of_outcome {α : Type} {outcome : Except Unreadable (Score α)} {p : Score α → Bool}
    (h : outcome.toOption.any p = true) : ∃ s, outcome = .ok s ∧ p s = true := by
  cases outcome with
  | error _ => cases h
  | ok s => exact ⟨s, rfl, h⟩

/-- A sheet whose tempo has as many digits as no double. -/
def endlessTempo : List Char :=
  "TEMPO: ".toList ++ List.replicate 309 '9' ++ "\nSECTION: A [1 bars]\n".toList

/-- A tempo beyond the doubles is read, but is lost when the score is saved. -/
theorem not_loadText_endlessTempo :
    ∃ s, (read Vocabulary.standard (String.ofList endlessTempo)).outcome = .ok s ∧
      ∀ registry options layout,
        (Document.loadText registry options (Document.text s layout).toList).outcome ≠ .ok s := by
  have hread : (readCleaned (Vocabulary.standard : Vocabulary Float)
      (clean (repair endlessTempo))).outcome.toOption.any
        (fun s => !Scalar.isFinite s.tempo) = true := by
    decide +kernel
  obtain ⟨s, hs, htempo⟩ := exists_of_outcome hread
  refine ⟨s, (outcome_read_ofList _ (by decide +kernel)).trans hs, ?_⟩
  intro registry options layout hload
  have hfinite := (Document.storable_of_loadText hload).finite s.tempo List.mem_cons_self
  rw [hfinite] at htempo
  cases htempo

/-- A sheet with a note, a chord and drums. -/
def plainSheet : List Char :=
  "TEMPO: 96\nSECTION: A [2 bars]\nPIANO: | C4(q,mf) Am7(h) | _ |\nDRUMS: | kick(1,3.5) |\n".toList

theorem loadText_plainSheet :
    ∃ s, (read Vocabulary.standard (String.ofList plainSheet)).outcome = .ok s ∧
      (∀ x ∈ s.numbers, Scalar.isFinite x = true) ∧
      Document.loadText .standard {} (Document.text s Document.defaultLayout).toList
        = ⟨.ok s, []⟩ := by
  have hread : (readCleaned (Vocabulary.standard : Vocabulary Float)
      (clean (repair plainSheet))).outcome.toOption.any
        (fun s => s.numbers.all Scalar.isFinite) = true := by
    decide +kernel
  obtain ⟨s, hs, hfinite⟩ := exists_of_outcome hread
  have hs := (outcome_read_ofList _ (by decide +kernel)).trans hs
  have hfinite := List.all_eq_true.mp hfinite
  exact ⟨s, hs, hfinite, (loadText_read .standard {} Document.defaultLayout hs).1 hfinite⟩

end Sheet

end LeadSheet
