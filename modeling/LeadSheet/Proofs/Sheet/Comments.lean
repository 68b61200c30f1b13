import LeadSheet.Proofs.Sheet.Markers

/-!
# Headers that are commented out

A comment line is dropped when a text is cleaned, unless it mentions a section: then it is kept, so
that the header of a section can be commented out without its tracks falling to the section before.
With the marks `#` and `*` that is how it goes. The line is kept with the mark before it, its marker
stands where it stood, and the score has as many sections as before (`sections_of_commented`).

The mark `//` also ends a line wherever it stands. A line that starts with it is kept for the
section it mentions, and is then cut at its own start, so that nothing is left of it: the header is
lost, and the text is read as if that line were empty.
-/

namespace LeadSheet.Sheet

/-! ## A line that mentions a section -/

/-- The marks of comments that are kept if they mention a section; no mark is one of them. -/
def keptMarks : List (List Char) := [[], ['#', ' '], ['*', ' ']]

/-- A line that mentions a section is cut at the mark that ends a line, and is kept as far as
something is left. -/
theorem cleanLine?_of_mentions {line trimmed : List Char} (htrim : Text.trim line = trimmed)
    (hfirst : ∃ c ∈ ['S', '#', '*', '/'], c ∈ trimmed.head?)
    (hmentions : mentionsSection trimmed = true) :
    cleanLine? line = (fun kept => if kept = [] then none else some kept)
      (Text.trim (Text.before commentMark trimmed)) := by
  have hsection : Text.hasWord "SECTION".toList (Text.toUpper trimmed) = true := by
    have hwithin : "SECTION".toList <:+: sectionKeyword := by decide
    exact Text.hasWord_iff.mpr (hwithin.trans (Text.hasWord_iff.mp hmentions))
  have hcut : (if Text.hasWord commentMark trimmed then
      Text.trim (Text.before commentMark trimmed) else trimmed)
      = Text.trim (Text.before commentMark trimmed) := by
    by_cases hmark : Text.hasWord commentMark trimmed = true
    · rw [if_pos hmark]
    · rw [if_neg hmark, Text.before_of_not_hasWord (Bool.eq_false_iff.mpr hmark), ← htrim,
        Text.trim_trim]
  unfold cleanLine?
  rw [htrim]
  dsimp only
  rw [hcut, hsection, Bool.not_true, Bool.and_false, if_neg Bool.false_ne_true, if_neg]
  -- none of these characters starts a code fence
  obtain ⟨c, hc, hhead⟩ := hfirst
  obtain ⟨rest, rfl⟩ := List.head?_eq_some_iff.mp hhead
  simp only [List.mem_cons, List.not_mem_nil, or_false] at hc
  rcases hc with rfl | rfl | rfl | rfl <;> simp [List.isPrefixOf]

/-- What a header starts with, commented out or not: perhaps a mark, and the keyword. -/
structure StartsHeader (start : List Char) : Prop where
  first : ∃ c ∈ ['S', '#', '*', '/'], c ∈ start.head?
  last : ∀ c ∈ start.getLast?, Text.isBlank c = false
  keyword : sectionKeyword <:+ start

theorem StartsHeader.of_mem {mark : List Char} (h : mark ∈ ['/', '/', ' '] :: keptMarks) :
    StartsHeader (mark ++ sectionKeyword) where
  first := by
    simp only [keptMarks, List.mem_cons, List.not_mem_nil, or_false] at h
    rcases h with rfl | rfl | rfl | rfl
    · exact ⟨'/', by simp, rfl⟩
    · exact ⟨'S', by simp, rfl⟩
    · exact ⟨'#', by simp, rfl⟩
    · exact ⟨'*', by simp, rfl⟩
  last := by
    have hlast : sectionKeyword.getLast? = some ':' := by decide
    intro c hc
    rw [List.getLast?_append, hlast] at hc
    cases hc
    rfl
  keyword := List.suffix_append mark sectionKeyword

namespace StartsHeader

variable {start : List Char} (h : StartsHeader start)

include h

theorem trim_append (rest : List Char) :
    Text.trim (start ++ rest) = start ++ Text.trimEnd rest := by
  obtain ⟨c, hc, hhead⟩ := h.first
  have hblank : ∀ c ∈ ['S', '#', '*', '/'], Text.isBlank c = false := by
    simp [Text.isBlank]
  have hne : start ≠ [] := by
    rintro rfl
    cases hhead
  refine Text.trim_append_of_not_isBlank hne (fun d hd => ?_) h.last rest
  rw [Option.mem_unique hd hhead]
  exact hblank c hc

theorem cleanLine?_append (rest : List Char) :
    cleanLine? (start ++ rest) = (fun kept => if kept = [] then none else some kept)
      (Text.trim (Text.before commentMark (start ++ Text.trimEnd rest))) := by
  obtain ⟨c, hc, hhead⟩ := h.first
  obtain ⟨before, rfl⟩ := h.keyword
  refine cleanLine?_of_mentions (h.trim_append rest)
    ⟨c, hc, List.mem_head?_append_of_mem_head? hhead⟩ ?_
  exact mentionsSection_of_infix (List.infix_append before sectionKeyword _) (by decide)

/-- A header is kept up to the mark that ends a line, which does not stand at its start. -/
theorem cleanLine?_of_not_mem (hslash : '/' ∉ start) (rest : List Char) :
    cleanLine? (start ++ rest)
      = some (start ++ Text.trimEnd (Text.before commentMark (Text.trimEnd rest))) := by
  obtain ⟨c, _, hhead⟩ := h.first
  have hne : start ++ Text.trimEnd (Text.before commentMark (Text.trimEnd rest)) ≠ [] := by
    intro hnil
    rw [(List.append_eq_nil_iff.mp hnil).1] at hhead
    cases hhead
  rw [h.cleanLine?_append, commentMark, Text.before_append_of_not_mem hslash, h.trim_append]
  exact if_neg hne

end StartsHeader

/-- Nothing is left of a header behind the mark that ends a line. -/
theorem cleanLine?_header_eq_none (rest : List Char) :
    cleanLine? (['/', '/', ' '] ++ (sectionKeyword ++ rest)) = none := by
  rw [← List.append_assoc, (StartsHeader.of_mem List.mem_cons_self).cleanLine?_append]
  rfl

/-- Behind the other marks a header is kept as far as it is without them. -/
theorem exists_cleanLine?_header (rest : List Char) : ∃ kept, ∀ mark ∈ keptMarks,
    cleanLine? (mark ++ (sectionKeyword ++ rest)) = some (mark ++ (sectionKeyword ++ kept)) := by
  have hslash : ∀ mark ∈ keptMarks, '/' ∉ mark ++ sectionKeyword := by decide
  refine ⟨Text.trimEnd (Text.before commentMark (Text.trimEnd rest)), fun mark hmark => ?_⟩
  rw [← List.append_assoc, ← List.append_assoc]
  exact (StartsHeader.of_mem (List.mem_cons_of_mem _ hmark)).cleanLine?_of_not_mem
    (hslash mark hmark) rest

/-! ## Markers, line by line -/

theorem startsSection_append_cons (text rest : List Char) :
    startsSection (text ++ '\n' :: rest) = startsSection text := by
  have hkeyword : sectionKeyword.any Text.isBlank = false := by decide
  have hletters : ∀ d ∈ sectionKeyword, Text.isBlank d = false := fun d hd =>
    Bool.eq_false_iff.mpr (List.any_eq_false.mp hkeyword d hd)
  exact Text.startsWithLabel_append_blank hletters text rfl rest

theorem length_markers_append_cons (text rest : List Char) :
    (markers (text ++ '\n' :: rest)).length = (markers text).length + (markers rest).length := by
  induction text with
  | nil =>
    have hstarts : startsSection ('\n' :: rest) = false := startsSection_append_cons [] rest
    rw [List.nil_append, markers_cons, hstarts, if_neg Bool.false_ne_true]
    exact (Nat.zero_add _).symm
  | cons c text ih =>
    have hstarts := startsSection_append_cons (c :: text) rest
    rw [List.cons_append] at hstarts
    rw [List.cons_append, markers_cons, markers_cons, hstarts]
    split
    · rw [List.length_cons, List.length_cons, ih, Nat.add_right_comm]
    · exact ih

theorem length_markers_join (lines : List (List Char)) :
    (markers (Text.join ['\n'] lines)).length = (lines.flatMap markers).length := by
  induction lines with
  | nil => rfl
  | cons line lines ih =>
    cases lines with
    | nil =>
      rw [Text.join_cons, List.flatMap_nil, List.append_nil, List.flatMap_singleton]
    | cons next lines =>
      rw [Text.join_cons_of_ne_nil (List.cons_ne_nil _ _), length_markers_append_cons, ih,
        ← List.length_append]
      rfl

theorem toUpper_ne_of_mem_keptMark {mark : List Char} (hmark : mark ∈ keptMarks) :
    ∀ c ∈ mark, c.toUpper ≠ 'S' := by
  have hmarks : ∀ mark ∈ keptMarks, mark.all (·.toUpper != 'S') = true := by decide
  intro c hc
  exact bne_iff_ne.mp (List.all_eq_true.mp (hmarks mark hmark) c hc)

theorem markers_keptMark {mark : List Char} (hmark : mark ∈ keptMarks) (text : List Char) :
    markers (mark ++ text) = markers text :=
  markers_append (toUpper_ne_of_mem_keptMark hmark) text

/-! ## What stands before the first marker -/

theorem mentionsSection_append_cons (text rest : List Char) :
    mentionsSection (text ++ '\n' :: rest) = (mentionsSection text || mentionsSection rest) := by
  unfold mentionsSection
  rw [Text.toUpper_append]
  exact Text.hasWord_append_cons (by decide) (by decide) _ _

theorem preamble_append_cons (text rest : List Char) :
    preamble (text ++ '\n' :: rest)
      = if markers text = [] then text ++ '\n' :: preamble rest else preamble text := by
  induction text with
  | nil =>
    have hstarts : startsSection ('\n' :: rest) = false := startsSection_append_cons [] rest
    rw [List.nil_append, preamble_cons, hstarts, if_neg Bool.false_ne_true]
    rfl
  | cons c text ih =>
    have hstarts := startsSection_append_cons (c :: text) rest
    rw [List.cons_append] at hstarts
    rw [List.cons_append, preamble_cons, preamble_cons, markers_cons, hstarts]
    by_cases h : startsSection (c :: text) = true
    · rw [if_pos h, if_pos h, if_pos h, if_neg (List.cons_ne_nil _ _)]
    · rw [if_neg h, if_neg h, if_neg h, ih]
      split <;> rfl

theorem preamble_keptMark {mark text : List Char} (hmark : mark ∈ keptMarks)
    (h : startsSection text = true) : preamble (mark ++ text) = mark := by
  have hnil : preamble text = [] := by
    cases text with
    | nil => rfl
    | cons c text => rw [preamble_cons, if_pos h]
  rw [preamble_append (toUpper_ne_of_mem_keptMark hmark), hnil, List.append_nil]

/-- A mark before a header does not make what stands before the first marker a section. -/
theorem mentionsSection_preamble_keptMark {mark header : List Char} (hmark : mark ∈ keptMarks)
    (hheader : startsSection header = true) (before after : List (List Char)) :
    mentionsSection (preamble (Text.join ['\n'] (before ++ (mark ++ header) :: after)))
      = mentionsSection (preamble (Text.join ['\n'] (before ++ header :: after))) := by
  induction before with
  | nil =>
    have hmentions : ∀ mark ∈ keptMarks, mentionsSection mark = false := by decide
    have hstarts : startsSection (header ++ after.flatMap (['\n'] ++ ·)) = true :=
      startsSection_of_isPrefix (List.prefix_append _ _) hheader
    have hnone := preamble_keptMark (List.mem_cons_self : [] ∈ keptMarks) hstarts
    rw [List.nil_append] at hnone
    rw [List.nil_append, List.nil_append, Text.join_cons, Text.join_cons, List.append_assoc,
      preamble_keptMark hmark hstarts, hnone, hmentions mark hmark]
    rfl
  | cons line before ih =>
    have hne : ∀ line, before ++ line :: after ≠ [] := fun line =>
      List.append_ne_nil_of_right_ne_nil _ (List.cons_ne_nil _ _)
    rw [List.cons_append, List.cons_append, Text.join_cons_of_ne_nil (hne _),
      Text.join_cons_of_ne_nil (hne _), preamble_append_cons, preamble_append_cons]
    split
    · rw [mentionsSection_append_cons, mentionsSection_append_cons, ih]
    · rfl

/-! ## Texts of several lines -/

section

variable {before after : List (List Char)} {mark header : List Char}

/-- The markers of a line are markers of the text. -/
theorem length_markers_insert (before after : List (List Char)) (line : List Char) :
    (markers (Text.join ['\n'] (before ++ line :: after))).length
      = (markers (Text.join ['\n'] (before ++ after))).length + (markers line).length := by
  rw [length_markers_join, length_markers_join, List.flatMap_append, List.flatMap_append,
    List.flatMap_cons]
  simp only [List.length_append]
  omega

theorem length_markers_pos (h : startsSection header = true) : 0 < (markers header).length := by
  cases header with
  | nil => cases h
  | cons c rest =>
    rw [markers_cons, if_pos h, List.length_cons]
    exact Nat.succ_pos _

/-- A mark before a header changes nothing about the number of sections. -/
theorem length_sectionPieces_keptMark (hmark : mark ∈ keptMarks)
    (hheader : startsSection header = true) (before after : List (List Char)) :
    (sectionPieces (Text.join ['\n'] (before ++ (mark ++ header) :: after))).length
      = (sectionPieces (Text.join ['\n'] (before ++ header :: after))).length := by
  have hunmarked : ∀ text, (unmarked text).length
      = if mentionsSection (preamble text) = true then 1 else 0 := by
    intro text
    unfold unmarked
    split <;> rfl
  rw [sectionPieces_eq, sectionPieces_eq, List.length_append, List.length_append, List.length_map,
    List.length_map, hunmarked, hunmarked, mentionsSection_preamble_keptMark hmark hheader,
    length_markers_insert, length_markers_insert, markers_keptMark hmark]

end

/-- The lines before and behind a line of a text that has line breaks enough. -/
structure LinesAround (before after : List (List Char)) : Prop where
  enough : enoughLineBreaks ≤ before.length + after.length
  before : ∀ line ∈ before, '\n' ∉ line
  after : ∀ line ∈ after, '\n' ∉ line

namespace LinesAround

variable {before after : List (List Char)}

theorem of_split {text line : List Char} (henough : enoughLineBreaks ≤ Text.occurrences '\n' text)
    (h : Text.split '\n' text = before ++ line :: after) : LinesAround before after where
  enough := by
    have hlength := Text.length_split '\n' text
    rw [h, List.length_append, List.length_cons] at hlength
    unfold Text.occurrences at henough
    omega
  before other hother := Text.not_mem_of_mem_split (h ▸ List.mem_append_left _ hother)
  after other hother :=
    Text.not_mem_of_mem_split (h ▸ List.mem_append_right _ (List.mem_cons_of_mem _ hother))

variable (h : LinesAround before after)

include h

theorem split_join {line : List Char} (hline : '\n' ∉ line) :
    Text.split '\n' (Text.join ['\n'] (before ++ line :: after)) = before ++ line :: after := by
  refine Text.split_join (List.append_ne_nil_of_right_ne_nil _ (List.cons_ne_nil _ _)) ?_
  intro other hother
  rcases List.mem_append.mp hother with hother | hother
  · exact h.before other hother
  · rcases List.mem_cons.mp hother with rfl | hother
    · exact hline
    · exact h.after other hother

theorem repair_join {line : List Char} (hline : '\n' ∉ line) :
    repair (Text.join ['\n'] (before ++ line :: after))
        = Text.join ['\n'] (before ++ line :: after) ∧
      Text.occurrences '\n' (Text.join ['\n'] (before ++ line :: after))
        = before.length + after.length := by
  have hcount := Text.length_split '\n' (Text.join ['\n'] (before ++ line :: after))
  rw [h.split_join hline, List.length_append, List.length_cons] at hcount
  have hbreaks : Text.occurrences '\n' (Text.join ['\n'] (before ++ line :: after))
      = before.length + after.length := by
    unfold Text.occurrences
    omega
  refine ⟨?_, hbreaks⟩
  unfold repair
  rw [hbreaks, decide_eq_true h.enough, Bool.true_or, if_pos rfl]

/-- Nothing is repaired, and the lines are cleaned one by one. -/
theorem clean_repair_join {line : List Char} (hline : '\n' ∉ line) :
    clean (repair (Text.join ['\n'] (before ++ line :: after)))
      = Text.join ['\n'] (before.filterMap cleanLine?
        ++ ((cleanLine? line).toList ++ after.filterMap cleanLine?)) := by
  rw [(h.repair_join hline).1, clean, h.split_join hline, List.filterMap_append,
    List.filterMap_cons]
  cases cleanLine? line <;> rfl

variable {rest : List Char} (hheader : '\n' ∉ sectionKeyword ++ rest)

include hheader

/-- With each of these marks, or without, a header is kept in its place. -/
theorem exists_clean_header : ∃ header, startsSection header = true ∧ ∀ mark ∈ keptMarks,
    clean (repair (Text.join ['\n'] (before ++ (mark ++ (sectionKeyword ++ rest)) :: after)))
      = Text.join ['\n'] (before.filterMap cleanLine?
        ++ (mark ++ header) :: after.filterMap cleanLine?) := by
  obtain ⟨kept, hkept⟩ := exists_cleanLine?_header rest
  refine ⟨sectionKeyword ++ kept,
    startsSection_of_isPrefix (List.prefix_append _ _) (by decide), fun mark hmark => ?_⟩
  have hunbroken : ∀ mark ∈ keptMarks, '\n' ∉ mark := by decide
  have hline : '\n' ∉ mark ++ (sectionKeyword ++ rest) := fun hmem =>
    (List.mem_append.mp hmem).elim (hunbroken mark hmark) hheader
  rw [h.clean_repair_join hline, hkept mark hmark]
  rfl

/-- The marker of a header is lost with its line. -/
theorem length_markers_lt : ∀ mark ∈ keptMarks,
    (markers (clean (repair (Text.join ['\n'] (before ++ [] :: after))))).length
      < (markers (clean (repair (Text.join ['\n']
          (before ++ (mark ++ (sectionKeyword ++ rest)) :: after))))).length := by
  obtain ⟨header, hstarts, hcleaned⟩ := h.exists_clean_header hheader
  intro mark hmark
  have hempty : clean (repair (Text.join ['\n'] (before ++ [] :: after)))
      = Text.join ['\n'] (before.filterMap cleanLine? ++ after.filterMap cleanLine?) :=
    h.clean_repair_join List.not_mem_nil
  rw [hcleaned mark hmark, hempty, length_markers_insert, markers_keptMark hmark]
  exact Nat.lt_add_of_pos_right (length_markers_pos hstarts)

variable {α : Type} [Scalar α] (v : Vocabulary α)

/-- With each of these marks, or without, there is a score, and it has as many sections. -/
theorem exists_count_sections : ∃ count, ∀ mark ∈ keptMarks, ∃ s,
    (read v (String.ofList (Text.join ['\n']
      (before ++ (mark ++ (sectionKeyword ++ rest)) :: after)))).outcome = .ok s ∧
    s.sections.length = count := by
  obtain ⟨header, hstarts, hcleaned⟩ := h.exists_clean_header hheader
  refine ⟨(sectionPieces (Text.join ['\n'] (before.filterMap cleanLine?
    ++ header :: after.filterMap cleanLine?))).length, fun mark hmark => ?_⟩
  have hne := List.ne_nil_of_length_pos
    (Nat.zero_lt_of_lt (h.length_markers_lt hheader mark hmark))
  rw [← String.toList_ofList (l := Text.join _ (_ ++ (mark ++ _) :: _))] at hne
  obtain ⟨s, hs⟩ := exists_outcome_of_markers (v := v) hne
  refine ⟨s, hs, ?_⟩
  rw [length_sections hs, String.toList_ofList, hcleaned mark hmark,
    length_sectionPieces_keptMark hmark hstarts]

/-- Behind the mark that ends a line, a header is read as an empty line. -/
theorem read_cut :
    read v (String.ofList (Text.join ['\n']
      (before ++ (['/', '/', ' '] ++ (sectionKeyword ++ rest)) :: after)))
      = read v (String.ofList (Text.join ['\n'] (before ++ [] :: after))) := by
  have hunbroken : '\n' ∉ ['/', '/', ' '] := by decide
  have hline : '\n' ∉ ['/', '/', ' '] ++ (sectionKeyword ++ rest) := fun hmem =>
    (List.mem_append.mp hmem).elim hunbroken hheader
  have hempty : '\n' ∉ ([] : List Char) := List.not_mem_nil
  refine read_congr v ?_ ?_
  · rw [h.clean_repair_join hline, h.clean_repair_join hempty, cleanLine?_header_eq_none]
    rfl
  · obtain ⟨hrepair, hcount⟩ := h.repair_join hline
    obtain ⟨hrepairEmpty, hcountEmpty⟩ := h.repair_join hempty
    rw [hrepair, hrepairEmpty, hcount, hcountEmpty]

end LinesAround

/-! ## Sheets -/

variable {α : Type} [Scalar α]

/-- **Headers that are commented out.** In a text of lines enough, let a line that starts with the
section keyword be commented out. With `#` or `*` the score has as many sections as before. With
`//` the text is read as if the line were empty, and a marker is lost. -/
theorem sections_of_commented (v : Vocabulary α) {text : List Char}
    (henough : enoughLineBreaks ≤ Text.occurrences '\n' text)
    {before after : List (List Char)} {line : List Char}
    (hlines : Text.split '\n' text = before ++ line :: after) (hline : sectionKeyword <+: line) :
    let withLine := fun line => Text.join ['\n'] (before ++ line :: after)
    (∃ s, (read v (String.ofList text)).outcome = .ok s ∧
      ∀ mark ∈ ["# ", "* "], ∃ commented,
        (read v (String.ofList (withLine (mark.toList ++ line)))).outcome = .ok commented ∧
        commented.sections.length = s.sections.length) ∧
    read v (String.ofList (withLine ("// ".toList ++ line)))
      = read v (String.ofList (withLine [])) ∧
    (markers (clean (repair (withLine [])))).length
      < (markers (clean (repair text))).length := by
  intro withLine
  have haround := LinesAround.of_split henough hlines
  have hheader : '\n' ∉ line :=
    Text.not_mem_of_mem_split (hlines ▸ List.mem_append_right _ List.mem_cons_self)
  have htext : text = withLine line := by
    rw [← Text.join_split '\n' text, hlines]
  obtain ⟨rest, rfl⟩ := hline
  obtain ⟨count, hcount⟩ := haround.exists_count_sections hheader v
  refine ⟨?_, ?_, ?_⟩
  · obtain ⟨s, hs, hlength⟩ := hcount [] List.mem_cons_self
    rw [htext]
    refine ⟨s, hs, fun mark hmark => ?_⟩
    have hkept : ∀ mark ∈ ["# ", "* "], mark.toList ∈ keptMarks := by decide
    obtain ⟨commented, hcommented, hlengthCommented⟩ := hcount _ (hkept mark hmark)
    exact ⟨commented, hcommented, hlengthCommented.trans hlength.symm⟩
  · have hmark : "// ".toList = ['/', '/', ' '] := by decide
    rw [hmark]
    exact haround.read_cut hheader v
  · rw [htext]
    exact haround.length_markers_lt hheader [] List.mem_cons_self

/-- A sheet of one section, with a line for its header. -/
def demoSheet (header : String) : List Char :=
  Text.join ['\n'] (["SONG: Demo".toList, "TEMPO: 90".toList, "KEY: Am".toList, []]
    ++ header.toList :: ["PIANO: C4(q)".toList, []])

theorem sections_of_commented_demo :
    enoughLineBreaks ≤ Text.occurrences '\n' (demoSheet "SECTION: A [1 bars] // verse") ∧
      sectionKeyword <+: "SECTION: A [1 bars] // verse".toList ∧
      ∃ s commented, (read (Vocabulary.standard : Vocabulary Float)
          (String.ofList (demoSheet "SECTION: A [1 bars] // verse"))).outcome = .ok s ∧
        (read (Vocabulary.standard : Vocabulary Float)
          (String.ofList (demoSheet "# SECTION: A [1 bars] // verse"))).outcome = .ok commented ∧
        commented.sections.length = s.sections.length := by
  have henough : enoughLineBreaks
      ≤ Text.occurrences '\n' (demoSheet "SECTION: A [1 bars] // verse") := by
    decide +kernel
  have hlines : Text.split '\n' (demoSheet "SECTION: A [1 bars] // verse")
      = ["SONG: Demo".toList, "TEMPO: 90".toList, "KEY: Am".toList, []]
        ++ "SECTION: A [1 bars] // verse".toList :: ["PIANO: C4(q)".toList, []] := by
    decide +kernel
  have hline : sectionKeyword <+: "SECTION: A [1 bars] // verse".toList := by
    decide +kernel
  obtain ⟨⟨s, hs, hmarks⟩, -⟩ :=
    sections_of_commented (Vocabulary.standard : Vocabulary Float) henough hlines hline
  obtain ⟨commented, hcommented, hlength⟩ := hmarks "# " List.mem_cons_self
  have hmarked : "# SECTION: A [1 bars] // verse".toList
      = "# ".toList ++ "SECTION: A [1 bars] // verse".toList := by
    decide +kernel
  refine ⟨henough, hline, s, commented, hs, ?_, hlength⟩
  rw [demoSheet, hmarked]
  exact hcommented

/-- Behind the mark that ends a line the only header is lost, and with it the score. -/
theorem header_lost_behind_slashes :
    enoughLineBreaks ≤ Text.occurrences '\n' (demoSheet "SECTION: A [1 bars]") ∧
      (∃ s, (read (Vocabulary.standard : Vocabulary Float)
          (String.ofList (demoSheet "SECTION: A [1 bars]"))).outcome = .ok s ∧
        s.sections.length = 1) ∧
      ¬∃ s, (read (Vocabulary.standard : Vocabulary Float)
          (String.ofList (demoSheet "// SECTION: A [1 bars]"))).outcome = .ok s := by
  have hpieces : (sectionPieces (clean (repair (demoSheet "SECTION: A [1 bars]")))).length = 1 := by
    decide +kernel
  have hlost : sectionPieces (clean (repair (demoSheet "// SECTION: A [1 bars]"))) = [] := by
    decide +kernel
  have hcontent : ∀ header ∈ ["SECTION: A [1 bars]", "// SECTION: A [1 bars]"],
      Text.isBlankText (clean (repair (String.ofList (demoSheet header)).toList)) = false := by
    intro header hheader
    rw [String.toList_ofList]
    have hall : ∀ header ∈ ["SECTION: A [1 bars]", "// SECTION: A [1 bars]"],
        Text.isBlankText (clean (repair (demoSheet header))) = false := by
      decide +kernel
    exact hall header hheader
  have hfirst := hcontent "SECTION: A [1 bars]" List.mem_cons_self
  have hsecond := hcontent "// SECTION: A [1 bars]" (List.mem_cons_of_mem _ List.mem_cons_self)
  refine ⟨by decide +kernel, ?_, ?_⟩
  · obtain ⟨s, hs⟩ : ∃ s, (read (Vocabulary.standard : Vocabulary Float)
        (String.ofList (demoSheet "SECTION: A [1 bars]"))).outcome = .ok s := by
      rw [exists_outcome_iff hfirst, String.toList_ofList]
      exact List.ne_nil_of_length_pos (hpieces ▸ Nat.one_pos)
    refine ⟨s, hs, ?_⟩
    rw [length_sections hs, String.toList_ofList, hpieces]
  · rw [exists_outcome_iff hsecond, String.toList_ofList, hlost]
    exact fun hne => hne rfl

end LeadSheet.Sheet
