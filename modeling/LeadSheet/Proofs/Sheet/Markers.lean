import LeadSheet.Proofs.Sheet.Repair
import LeadSheet.Proofs.Text.Case

/-!
# Sections are the markers

A *marker* is a place in a cleaned text where the section keyword starts, each letter in either
case. The text is cut before every marker, and each piece becomes a section; what stands before the
first marker should become none.

Whether a piece is a section is asked of its upper case, though, and the upper case of a character
beyond ASCII can have the letters of the keyword: a long s or a sharp s has an `S`, a dotless i an
`I`. The pieces that start with a marker are sections in any case. So all that this can bring about
is one section more, in front of the others, which is read from the text before the first marker
(`sections_of_markers`); a text without a marker can be that one section.
-/

namespace LeadSheet.Sheet

/-! ## Markers -/

/-- Whether a marker is here: the section keyword in any ASCII case. -/
def startsSection (text : List Char) : Bool := Text.startsWithLabel sectionKeyword text

/-- The rest of the text from each marker on, marker by marker. -/
def markers (text : List Char) : List (List Char) := text.tails.filter startsSection

/-- What stands before the first marker. -/
def preamble : List Char → List Char
  | [] => []
  | c :: rest => if startsSection (c :: rest) then [] else c :: preamble rest

/-- The part of a text that belongs to the marker at its start: all up to the next one. -/
def upToNext (text : List Char) : List Char := text.take 1 ++ preamble (text.drop 1)

theorem markers_cons (c : Char) (text : List Char) :
    markers (c :: text) = if startsSection (c :: text) then (c :: text) :: markers text
      else markers text := by
  unfold markers
  rw [List.tails_cons, List.filter_cons]

/-- A text is cut into what stands before the first marker and what belongs to each of them. -/
theorem pieces_eq (text : List Char) :
    pieces text = preamble text :: (markers text).map upToNext := by
  induction text with
  | nil => rfl
  | cons c text ih =>
    rw [pieces, ih, markers_cons, preamble]
    by_cases h : startsSection (c :: text) = true
    · rw [if_pos h, if_pos h]
      exact if_pos h
    · rw [if_neg h, if_neg h]
      exact if_neg h

theorem preamble_isPrefix (text : List Char) : preamble text <+: text := by
  induction text with
  | nil => exact List.prefix_rfl
  | cons c text ih =>
    rw [preamble]
    split
    · exact List.nil_prefix
    · exact (List.prefix_cons_inj c).mpr ih

theorem startsSection_of_isPrefix {text more : List Char} (hbegins : text <+: more)
    (h : startsSection text = true) : startsSection more = true := by
  obtain ⟨found, rest, rfl, hfound⟩ := Text.startsWithLabel_iff.mp h
  obtain ⟨others, rfl⟩ := hbegins
  exact Text.startsWithLabel_iff.mpr ⟨found, rest ++ others, List.append_assoc .., hfound⟩

/-- No marker stands before the first one. -/
theorem not_startsSection_of_suffix_preamble {text rest : List Char} (h : rest <:+ preamble text) :
    startsSection rest = false := by
  induction text with
  | nil =>
    rw [List.suffix_nil.mp h]
    rfl
  | cons c text ih =>
    rw [preamble] at h
    split at h
    · rw [List.suffix_nil.mp h]
      rfl
    · next hc =>
      rcases List.suffix_cons_iff.mp h with rfl | h
      · rw [Bool.eq_false_iff]
        exact fun hstarts => hc (startsSection_of_isPrefix
          ((List.prefix_cons_inj c).mpr (preamble_isPrefix text)) hstarts)
      · exact ih h

theorem startsSection_cons (c : Char) (text : List Char) :
    startsSection (c :: text)
      = ('S' == c.toUpper && Text.startsWithLabel "ECTION:".toList text) := by
  have hkeyword : sectionKeyword = 'S' :: "ECTION:".toList := by decide
  rw [startsSection, hkeyword, Text.startsWithLabel_cons_cons]

theorem startsSection_cons_of_ne {c : Char} (hc : c.toUpper ≠ 'S') (text : List Char) :
    startsSection (c :: text) = false := by
  rw [startsSection_cons, beq_false_of_ne (Ne.symm hc), Bool.false_and]

theorem preamble_cons (c : Char) (text : List Char) :
    preamble (c :: text) = if startsSection (c :: text) then [] else c :: preamble text := rfl

section

variable {start : List Char} (h : ∀ c ∈ start, c.toUpper ≠ 'S')

include h

/-- Text that no marker starts in has none, whatever follows. -/
theorem markers_append (text : List Char) : markers (start ++ text) = markers text := by
  induction start with
  | nil => rfl
  | cons c start ih =>
    obtain ⟨hc, hstart⟩ := List.forall_mem_cons.mp h
    rw [List.cons_append, markers_cons, startsSection_cons_of_ne hc, if_neg Bool.false_ne_true,
      ih hstart]

theorem preamble_append (text : List Char) :
    preamble (start ++ text) = start ++ preamble text := by
  induction start with
  | nil => rfl
  | cons c start ih =>
    obtain ⟨hc, hstart⟩ := List.forall_mem_cons.mp h
    rw [List.cons_append, preamble_cons, startsSection_cons_of_ne hc, if_neg Bool.false_ne_true,
      ih hstart, List.cons_append]

end

/-- Letters that no marker starts with are not cut off by the next marker. -/
theorem startsWithLabel_preamble {label text : List Char} (hlabel : 'S' ∉ label)
    (h : Text.startsWithLabel label text = true) :
    Text.startsWithLabel label (preamble text) = true := by
  induction label generalizing text with
  | nil => rfl
  | cons d label ih =>
    cases text with
    | nil => cases h
    | cons c text =>
      rw [Text.startsWithLabel_cons_cons, Bool.and_eq_true, beq_iff_eq] at h
      obtain ⟨rfl, hrest⟩ := h
      rw [List.mem_cons, not_or] at hlabel
      rw [preamble_cons, startsSection_cons_of_ne (Ne.symm hlabel.1), if_neg Bool.false_ne_true,
        Text.startsWithLabel_cons_cons, beq_self_eq_true, Bool.true_and]
      exact ih hlabel.2 hrest

/-- The next marker does not cut into this one. -/
theorem startsSection_upToNext {text : List Char} (h : startsSection text = true) :
    startsSection (upToNext text) = true := by
  cases text with
  | nil => cases h
  | cons c text =>
    rw [startsSection_cons] at h
    obtain ⟨hc, hrest⟩ := Bool.and_eq_true_iff.mp h
    show startsSection (c :: preamble text) = true
    rw [startsSection_cons, hc, startsWithLabel_preamble (by decide) hrest, Bool.and_self]

/-! ## Pieces that are sections -/

/-- What stands before the first marker, if it is taken for a section. -/
def unmarked (text : List Char) : List (List Char) :=
  if mentionsSection (preamble text) then [preamble text] else []

/-- What is read as sections: what belongs to the markers, and at most one piece before that. -/
theorem sectionPieces_eq (text : List Char) :
    sectionPieces text = unmarked text ++ (markers text).map upToNext := by
  have hmarked : ((markers text).map upToNext).filter mentionsSection
      = (markers text).map upToNext := by
    rw [List.filter_eq_self]
    intro piece hpiece
    obtain ⟨rest, hrest, rfl⟩ := List.mem_map.mp hpiece
    have hstarts := startsSection_upToNext (List.mem_filter.mp hrest).2
    exact mentionsSection_of_infix (List.infix_refl _) hstarts
  unfold sectionPieces unmarked
  rw [pieces_eq, List.filter_cons, hmarked]
  split <;> rfl

/-- What stands before the first marker is not taken for a section, if no character beyond ASCII in
it has a letter of the keyword in its upper case. -/
theorem mentionsSection_preamble {text : List Char}
    (h : ∀ c ∈ preamble text, Text.Plain sectionKeyword c) :
    mentionsSection (preamble text) = false := by
  rw [Bool.eq_false_iff]
  intro hmentions
  obtain ⟨rest, hsuffix, hstarts⟩ := Text.exists_startsWithLabel (by decide) h hmentions
  exact Bool.false_ne_true ((not_startsSection_of_suffix_preamble hsuffix).symm.trans hstarts)

/-! ## Sheets -/

section

variable {α : Type} [Scalar α] {v : Vocabulary α} {text : String}

/-- A text of which something is left gives a score if and only if a piece of it is a section. -/
theorem exists_outcome_iff (hcontent : Text.isBlankText (clean (repair text.toList)) = false) :
    (∃ s, (read v text).outcome = .ok s) ↔ sectionPieces (clean (repair text.toList)) ≠ [] := by
  unfold read
  dsimp only
  rw [hcontent, if_neg Bool.false_ne_true]
  unfold readCleaned
  dsimp only
  constructor
  · rintro ⟨s, hs⟩ hnil
    rw [hnil] at hs
    cases hs
  · intro hne
    split
    · next hempty =>
      exact absurd (List.map_eq_nil_iff.mp (List.isEmpty_iff.mp hempty)) hne
    · exact ⟨_, rfl⟩

/-- The sections of a score are read from the pieces that are sections, in order. -/
theorem sections_of_outcome {s : Score α} (h : (read v text).outcome = .ok s) :
    s.sections = placeSections ((sectionPieces (clean (repair text.toList))).map fun piece =>
      (readSection v s.key s.tempo piece).read) := by
  unfold read at h
  dsimp only at h
  split at h
  · cases h
  · generalize clean (repair text.toList) = cleaned at h ⊢
    unfold readCleaned at h
    dsimp only at h
    split at h
    · cases h
    · obtain rfl := Except.ok.inj h
      exact congrArg placeSections List.map_map

theorem length_placeFrom (bar : α) (sections : List (Section α)) :
    (placeFrom bar sections).length = sections.length := by
  induction sections generalizing bar with
  | nil => rfl
  | cons s rest ih => rw [placeFrom, List.length_cons, List.length_cons, ih]

theorem length_sections {s : Score α} (h : (read v text).outcome = .ok s) :
    s.sections.length = (sectionPieces (clean (repair text.toList))).length := by
  rw [sections_of_outcome h, placeSections, length_placeFrom, List.length_map]

/-- A marker is no blank. -/
theorem isBlankText_of_markers {cleaned : List Char} (h : markers cleaned ≠ []) :
    Text.isBlankText cleaned = false := by
  induction cleaned with
  | nil => exact absurd rfl h
  | cons c rest ih =>
    rw [Text.isBlankText, List.all_cons]
    rw [markers_cons] at h
    by_cases hstarts : startsSection (c :: rest) = true
    · have hc : Text.isBlank c = false := by
        rw [startsSection_cons, Bool.and_eq_true, beq_iff_eq] at hstarts
        rw [Bool.eq_false_iff]
        intro hblank
        rw [Text.toUpper_of_isBlank hblank] at hstarts
        exact absurd (hstarts.1 ▸ hblank) (by decide)
      rw [hc, Bool.false_and]
    · rw [if_neg hstarts] at h
      rw [show rest.all Text.isBlank = false from ih h, Bool.and_false]

theorem exists_outcome_of_markers (h : markers (clean (repair text.toList)) ≠ []) :
    ∃ s, (read v text).outcome = .ok s := by
  rw [exists_outcome_iff (isBlankText_of_markers h), sectionPieces_eq]
  intro hnil
  exact h (List.map_eq_nil_iff.mp (List.append_eq_nil_iff.mp hnil).2)

/-- **Sections are the markers.** Of a text of which something is left when it is cleaned, the score
has one section for each marker, in order, read from all up to the next marker. Before these there
is one more section if what stands before the first marker mentions a section in upper case; and
there is a score if and only if there is one of these sections. What stands before the first marker
does not mention one, so that a section is a marker and nothing else, unless a character beyond
ASCII in it has a letter of the keyword in its upper case. -/
theorem sections_of_markers (v : Vocabulary α)
    (hcontent : Text.isBlankText (clean (repair text.toList)) = false) :
    let cleaned := clean (repair text.toList)
    ((∃ s, (read v text).outcome = .ok s) ↔
      markers cleaned ≠ [] ∨ unmarked cleaned ≠ []) ∧
    (∀ s, (read v text).outcome = .ok s →
      s.sections = placeSections ((unmarked cleaned ++ (markers cleaned).map upToNext).map
        fun piece => (readSection v s.key s.tempo piece).read)) ∧
    ((∀ c ∈ preamble cleaned,
        c.toNat < 0x80 ∨ ∀ d ∈ Text.Case.upper c, d ∉ sectionKeyword) →
      unmarked cleaned = []) := by
  intro cleaned
  refine ⟨?_, ?_, ?_⟩
  · rw [exists_outcome_iff hcontent, sectionPieces_eq, ne_eq, List.append_eq_nil_iff,
      List.map_eq_nil_iff, and_comm, not_and_or]
  · intro s hs
    rw [sections_of_outcome hs, sectionPieces_eq]
  · intro hplain
    rw [unmarked, mentionsSection_preamble hplain, if_neg Bool.false_ne_true]

end

/-- A sheet with two markers, behind a long s that stands for an `S` in upper case. -/
def strayKeyword : String := "Draft of a ſection: X\nSection: A [2 bars]\nsection: B\n"

theorem sections_of_markers_strayKeyword :
    Text.isBlankText (clean (repair strayKeyword.toList)) = false ∧
      ∃ s, (read (Vocabulary.standard : Vocabulary Float) strayKeyword).outcome = .ok s ∧
        s.sections.length = 3 := by
  have hcleaned : clean (repair strayKeyword.toList)
      = "Draft of a ſection: X\nSection: A [2 bars]\nsection: B".toList := by
    decide +kernel
  have hcontent : Text.isBlankText (clean (repair strayKeyword.toList)) = false := by
    rw [hcleaned]
    decide +kernel
  obtain ⟨hscore, hsections, -⟩ :=
    sections_of_markers (Vocabulary.standard : Vocabulary Float) hcontent
  rw [hcleaned] at hscore hsections
  obtain ⟨s, hs⟩ := hscore.mpr (.inl (by decide +kernel))
  refine ⟨hcontent, s, hs, ?_⟩
  rw [hsections s hs, placeSections, length_placeFrom, List.length_map]
  decide +kernel

/-- A text without a marker can be a section: here a long s does for the letter that is missing. -/
theorem section_without_marker :
    Text.isBlankText (clean (repair "ſECTION: A".toList)) = false ∧
      markers (clean (repair "ſECTION: A".toList)) = [] ∧
      ∃ s, (read (Vocabulary.standard : Vocabulary Float) "ſECTION: A").outcome = .ok s ∧
        s.sections.length = 1 := by
  have hcleaned : clean (repair "ſECTION: A".toList) = "ſECTION: A".toList := by
    decide +kernel
  have hcontent : Text.isBlankText (clean (repair "ſECTION: A".toList)) = false := by
    rw [hcleaned]
    decide +kernel
  have hpieces : sectionPieces (clean (repair "ſECTION: A".toList)) = ["ſECTION: A".toList] := by
    rw [hcleaned]
    decide +kernel
  have hscore : ∃ s, (read (Vocabulary.standard : Vocabulary Float) "ſECTION: A").outcome = .ok s :=
    (exists_outcome_iff hcontent).mpr (hpieces ▸ List.cons_ne_nil _ _)
  obtain ⟨s, hs⟩ := hscore
  refine ⟨hcontent, ?_, s, hs, ?_⟩
  · rw [hcleaned]
    decide +kernel
  · rw [length_sections hs, hpieces, List.length_singleton]

end LeadSheet.Sheet
