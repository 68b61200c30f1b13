import LeadSheet.Proofs.Number.Signs
import LeadSheet.Proofs.Sheet.Content

/-!
# Every sheet gives a coherent score, or says why not

A text is unreadable in two ways only: nothing is left of it, or no section is there. Every other
text gives a score whose sections follow each other without a gap, in one key and one tempo, with
nothing in them that starts before the section does (`read_coherent`). The tempo and the numbers of
bars are above zero, though not always finite: a sheet may have any number of digits there.

Where sections stand is decided by `placeFrom`, which adds up bars as the total does. How starts are
worked out was shown in `Proofs.Sheet.Content`, so all that is left to see is that these steps do
not lead below zero.
-/

namespace LeadSheet

variable {α : Type} [Scalar α]

/-! ## Coherent scores -/

omit [Scalar α] in
/-- The starts of all notes, chords and hits. -/
def Section.starts (s : Section α) : List α :=
  s.tracks.flatMap (fun t => t.notes.map (·.start) ++ t.chords.map (·.start))
    ++ s.drums.toList.flatMap fun d => d.hits.map (·.start)

/-- Sections in the key and the tempo of the song, one after the other from the first bar on. -/
structure Score.Coherent (s : Score α) : Prop where
  sections_ne : s.sections ≠ []
  tempo_pos : 0 < s.tempo
  bars_pos : ∀ part ∈ s.sections, 0 < part.bars
  first : ∀ part ∈ s.sections.head?, part.startBar = 0
  next : s.sections.IsChain fun part following => following.startBar = part.startBar + part.bars
  total : ∀ part ∈ s.sections.getLast?, s.totalBars = part.startBar + part.bars
  shared : ∀ part ∈ s.sections, part.key = some s.key ∧ part.tempo = some s.tempo

/-! ## Placing sections -/

section

variable {sections : List (Section α)} {bar : α}

theorem exists_of_mem_placeFrom {part : Section α} (h : part ∈ placeFrom bar sections) :
    ∃ s ∈ sections, ∃ startBar, part = { s with startBar } := by
  induction sections generalizing bar with
  | nil => exact absurd h List.not_mem_nil
  | cons s rest ih =>
    rcases List.mem_cons.mp h with rfl | h
    · exact ⟨s, List.mem_cons_self, bar, rfl⟩
    · obtain ⟨s', hs', startBar, rfl⟩ := ih h
      exact ⟨s', List.mem_cons_of_mem _ hs', startBar, rfl⟩

theorem startBar_head?_placeFrom {part : Section α} (h : part ∈ (placeFrom bar sections).head?) :
    part.startBar = bar := by
  cases sections with
  | nil => cases h
  | cons s rest =>
    cases h
    rfl

theorem isChain_placeFrom : (placeFrom bar sections).IsChain
    fun part following => following.startBar = part.startBar + part.bars := by
  induction sections generalizing bar with
  | nil => exact .nil
  | cons s rest ih =>
    cases rest with
    | nil => exact .singleton _
    | cons s' rest => exact .cons_cons rfl ih

/-- The bars of the sections are added up in the order in which they are placed. -/
theorem sum_placeFrom {part : Section α} (h : part ∈ (placeFrom bar sections).getLast?) :
    (placeFrom bar sections).foldl (fun sum s => sum + s.bars) bar = part.startBar + part.bars := by
  induction sections generalizing bar with
  | nil => cases h
  | cons s rest ih =>
    cases rest with
    | nil =>
      cases h
      rfl
    | cons s' rest =>
      exact ih h

end

namespace Sheet

/-! ## Scores that were read -/

variable {v : Vocabulary α} {P : α → Prop}

/-- A score as it is read. -/
structure ReadScore (v : Vocabulary α) (P : α → Prop) (s : Score α) : Prop where
  tempo : ∃ n, 0 < n ∧ s.tempo = Scalar.ofNat n
  sections : ∃ sections, sections ≠ [] ∧ s.sections = placeSections sections ∧
    ∀ part ∈ sections, ReadSection v P s.key s.tempo part

theorem readScore_of_read (h : Starts v P) {text : String} {s : Score α}
    (hs : (read v text).outcome = .ok s) : ReadScore v P s := by
  unfold read at hs
  dsimp only at hs
  split at hs
  · cases hs
  · generalize clean (repair text.toList) = cleaned at hs
    unfold readCleaned at hs
    dsimp only at hs
    split at hs
    · cases hs
    · next hne =>
      cases hs
      have hpos : 0 < Default.tempo := by decide
      refine ⟨⟨_, counted_pos _ hpos, rfl⟩, _, ?_, rfl, fun part hpart => ?_⟩
      · rintro hnil
        exact hne (List.isEmpty_iff.mpr (List.map_eq_nil_iff.mp hnil))
      · obtain ⟨reading, hreading, rfl⟩ := List.mem_map.mp hpart
        obtain ⟨piece, -, rfl⟩ := List.mem_map.mp hreading
        exact readSection_read h _ _ piece

/-- All starts have the property that is kept by working them out. -/
theorem ReadScore.starts {s : Score α} (h : ReadScore v P s) :
    ∀ part ∈ s.sections, ∀ x ∈ part.starts, P x := by
  intro part hpart x hx
  obtain ⟨sections, -, hplaced, hread⟩ := h.sections
  rw [hplaced] at hpart
  obtain ⟨s', hs', startBar, rfl⟩ := exists_of_mem_placeFrom hpart
  have hbody := hread s' hs'
  rcases List.mem_append.mp hx with hx | hx
  · obtain ⟨t, ht, hx⟩ := List.mem_flatMap.mp hx
    have htrack := hbody.tracks t ht
    rcases List.mem_append.mp hx with hx | hx
    · obtain ⟨n, hn, rfl⟩ := List.mem_map.mp hx
      obtain ⟨_, _, _, start, -, hstart, rfl⟩ := (htrack.notes n hn).note
      exact hstart
    · obtain ⟨c, hc, rfl⟩ := List.mem_map.mp hx
      obtain ⟨_, _, start, hstart, rfl⟩ := (htrack.chords c hc).chord
      exact hstart
  · obtain ⟨d, hd, hx⟩ := List.mem_flatMap.mp hx
    obtain ⟨hit, hhit, rfl⟩ := List.mem_map.mp hx
    exact ((hbody.drums d (Option.mem_toList.mp hd)).hits hit hhit).1

theorem ReadScore.coherent (hpos : ∀ n, 0 < n → (0 : α) < Scalar.ofNat n) {s : Score α}
    (h : ReadScore v P s) : s.Coherent := by
  obtain ⟨sections, hne, hplaced, hread⟩ := h.sections
  obtain ⟨tempo, htempo, htempoEq⟩ := h.tempo
  have hpart : ∀ part ∈ s.sections,
      ReadSection v P s.key s.tempo { part with startBar := 0 } := by
    intro part hpart
    rw [hplaced] at hpart
    obtain ⟨s', hs', startBar, rfl⟩ := exists_of_mem_placeFrom hpart
    exact ⟨⟨(hread s' hs').tracks, (hread s' hs').drums⟩, (hread s' hs').bars, (hread s' hs').key,
      (hread s' hs').tempo⟩
  refine ⟨?_, htempoEq ▸ hpos tempo htempo, fun part hmem => ?_, ?_, ?_, ?_, fun part hmem => ?_⟩
  · rw [hplaced]
    cases sections with
    | nil => exact absurd rfl hne
    | cons => exact List.cons_ne_nil _ _
  · obtain ⟨bars, hbars, heq⟩ := (hpart part hmem).bars
    exact (show part.bars = Scalar.ofNat bars from heq) ▸ hpos bars hbars
  · rw [hplaced]
    exact fun part hhead => startBar_head?_placeFrom hhead
  · rw [hplaced]
    exact isChain_placeFrom
  · unfold Score.totalBars
    rw [hplaced]
    exact fun part hlast => sum_placeFrom hlast
  · exact ⟨(hpart part hmem).key, (hpart part hmem).tempo⟩

/-! ## Starts on doubles -/

section

open Double

variable {v : Vocabulary Float}

/-- Starts are unsigned if durations are not below zero. -/
theorem starts_unsigned (hdurations : ∀ entry ∈ v.durations, 0 ≤ entry.2) : Starts v Unsigned where
  decimal m places := unsigned_ofScientific m true places
  add hx hy := hx.add hy.zero_le
  lasting argument hx := hx.add (params_ofText (V := fun _ => True) hdurations (fun _ _ => trivial)
    (unsigned_ofScientific 1 true 0).zero_le trivial argument).1
  sub_one hx hle := hx.sub_one hle

theorem starts_any : Starts v fun _ => True where
  decimal _ _ := trivial
  add _ _ := trivial
  lasting _ _ := trivial
  sub_one _ _ := trivial

/-- **Every text gives a coherent score or one error.** The error says whether nothing is left of
the text when it was cleaned, or no section was found in what is left. A score is coherent, and if
no duration of the vocabulary is below zero, nothing starts before its section. -/
theorem read_coherent (v : Vocabulary Float) (text : String) :
    let cleaned := clean (repair text.toList)
    match (read v text).outcome with
    | .error error =>
      error.message = "No DSL content found" ∧ Text.isBlankText cleaned = true ∨
        error.message = "No SECTION blocks found" ∧ Text.isBlankText cleaned = false ∧
          sectionPieces cleaned = []
    | .ok s => s.Coherent ∧ ((∀ entry ∈ v.durations, 0 ≤ entry.2) →
        ∀ part ∈ s.sections, ∀ x ∈ part.starts, 0 ≤ x) := by
  intro cleaned
  cases houtcome : (read v text).outcome with
  | error error =>
    unfold read at houtcome
    dsimp only at houtcome
    split at houtcome
    · next hblank =>
      cases houtcome
      exact .inl ⟨rfl, hblank⟩
    · next hblank =>
      unfold readCleaned at houtcome
      dsimp only at houtcome
      split at houtcome
      · next hempty =>
        cases houtcome
        exact .inr ⟨rfl, Bool.eq_false_iff.mpr hblank,
          List.map_eq_nil_iff.mp (List.isEmpty_iff.mp hempty)⟩
      · cases houtcome
  | ok s =>
    have hcoherent := (readScore_of_read starts_any houtcome).coherent fun _ => zero_lt_ofNat
    refine ⟨hcoherent, fun hdurations part hpart x hx => ?_⟩
    have hread := readScore_of_read (starts_unsigned hdurations) houtcome
    exact (hread.starts part hpart x hx).zero_le

end

end Sheet

end LeadSheet
