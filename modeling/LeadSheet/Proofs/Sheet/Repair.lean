import LeadSheet.Proofs.Text.Scan
import LeadSheet.Sheet.Reading
import Mathlib.Data.List.Infix

/-!
# A sheet on one line is read as on many

Text generators run the lines of a sheet together, with blanks where the line breaks should be. If
every line starts with a keyword or a marker, and none holds another one behind a blank, nothing is
lost by that: the sheet is read as it would be with its line breaks (`read_oneLine`).

Repair goes through the text twice, once for the keywords and once for the markers, and puts a line
break before each of them that stands behind blanks. The argument follows the text line by line.
Between lines there are only blanks, where no label starts; inside a line none stands behind a
blank; so a pass changes nothing but what stands before a line (`breakBefore_sheet`). Cleaning then
trims away what the passes have left at the ends of the lines (`clean_sheet`).
-/

namespace LeadSheet.Sheet

/-! ## Lines of a sheet -/

/-- Whether a structural keyword starts here, or an instrument marker with its colon. -/
def startsLine (text : List Char) : Bool := startsKeyword text || startsMarker text

/-- A line as a sheet should have it: trimmed, with one label, at its start. -/
structure SheetLine (line : List Char) : Prop where
  trimmed : Text.trim line = line
  unbroken : '\n' ∉ line
  labelled : startsLine line = true
  /-- No other label stands behind a blank. -/
  single : ∀ blank rest, blank :: rest <:+ line → Text.isBlank blank = true →
    startsLine rest = false

theorem sheetLine_iff {line : List Char} : SheetLine line ↔
    Text.trim line = line ∧ '\n' ∉ line ∧ startsLine line = true ∧
      ∀ text ∈ line.tails, text.head?.any Text.isBlank = true → startsLine text.tail = false := by
  constructor
  · rintro ⟨trimmed, unbroken, labelled, single⟩
    refine ⟨trimmed, unbroken, labelled, fun text htext hhead => ?_⟩
    obtain ⟨blank, hblank, hisBlank⟩ := (Option.any_eq_true _ _).mp hhead
    obtain ⟨rest, rfl⟩ := List.head?_eq_some_iff.mp hblank
    exact single blank rest ((List.mem_tails _ _).mp htext) hisBlank
  · rintro ⟨trimmed, unbroken, labelled, single⟩
    exact ⟨trimmed, unbroken, labelled, fun blank rest hrest =>
      single (blank :: rest) ((List.mem_tails _ _).mpr hrest)⟩

instance (line : List Char) : Decidable (SheetLine line) := decidable_of_iff _ sheetLine_iff.symm

theorem startsLine_of_startsKeyword (text : List Char) (h : startsKeyword text = true) :
    startsLine text = true := by
  simp [startsLine, h]

theorem startsLine_of_startsMarker (text : List Char) (h : startsMarker text = true) :
    startsLine text = true := by
  simp [startsLine, h]

/-! ## Labels are words -/

/-- What is looked for is a word: it is not empty, and nothing behind a blank belongs to it. -/
structure IsWord (isLabel : List Char → Bool) : Prop where
  nil : isLabel [] = false
  append_blank : ∀ text {c} rest, Text.isBlank c = true →
    isLabel (text ++ c :: rest) = isLabel text

/-- One of several words. -/
theorem isWord_any {β : Type} {words : List β} {letters : β → List Char}
    (h : ∀ word ∈ words, letters word ≠ [] ∧ (letters word).any Text.isBlank = false) :
    IsWord fun text => words.any fun word => Text.startsWithLabel (letters word) text where
  nil := by
    refine List.any_eq_false.mpr fun word hword => ?_
    obtain ⟨c, rest, hletters⟩ := List.exists_cons_of_ne_nil (h word hword).1
    simp [Text.startsWithLabel, hletters]
  append_blank text c rest hc := by
    rw [Bool.eq_iff_iff, List.any_eq_true, List.any_eq_true]
    refine exists_congr fun word => and_congr_right fun hword => ?_
    have hletters : ∀ d ∈ letters word, Text.isBlank d = false := by
      simpa using (h word hword).2
    rw [Text.startsWithLabel_append_blank hletters text hc rest]

theorem isWord_startsKeyword : IsWord startsKeyword := isWord_any (by decide)

theorem isWord_startsMarker : IsWord startsMarker := isWord_any (by decide)

namespace IsWord

variable {isLabel : List Char → Bool}

/-- A word ends where blanks stand. -/
theorem append (h : IsWord isLabel) (text : List Char) {behind : List Char}
    (hbehind : ∀ c ∈ behind.head?, Text.isBlank c = true) :
    isLabel (text ++ behind) = isLabel text := by
  cases behind with
  | nil => rw [List.append_nil]
  | cons c rest => exact h.append_blank text rest (hbehind c rfl)

/-- No word starts with a blank. -/
theorem cons_blank (h : IsWord isLabel) {c : Char} (hc : Text.isBlank c = true) (rest : List Char) :
    isLabel (c :: rest) = false :=
  (h.append_blank [] rest hc).trans h.nil

end IsWord

/-! ## One pass of repair -/

theorem Gap.isBlank_of_behind {gap : Gap} {c : Char} (h : gap.behind c = .unbroken) :
    Text.isBlank c = true := by
  unfold Gap.behind at h
  split at h
  · cases h
  · next hc => simpa using hc

theorem Gap.behind_of_not_isBlank (gap : Gap) {c : Char} (h : Text.isBlank c = false) :
    gap.behind c = .none := by
  unfold Gap.behind
  simp [h]

/-- What stands before the place behind a text. -/
def Gap.across (gap : Gap) (text : List Char) : Gap := text.foldl Gap.behind gap

theorem Gap.across_of_trimmed (gap : Gap) {text : List Char} (h : Text.trim text = text)
    (hne : text ≠ []) : gap.across text = .none := by
  obtain ⟨start, c, rfl⟩ := (List.eq_nil_or_concat' text).resolve_left hne
  have hlast : c ∈ (Text.trim (start ++ [c])).getLast? := by
    rw [h, List.getLast?_concat]
    rfl
  unfold Gap.across
  rw [List.foldl_concat]
  exact Gap.behind_of_not_isBlank _ (Text.not_isBlank_of_getLast?_trimEnd hlast)

/-- A sheet: a first line, and further ones with a text before each of them. -/
def sheet (before : List Char → List Char) (first : List Char) (rest : List (List Char)) :
    List Char :=
  first ++ rest.flatMap fun line => before line ++ line

/-- What a pass makes of the blanks before a line. -/
def mended (isLabel : List Char → Bool) (inserted : List Char) (before : List Char → List Char)
    (line : List Char) : List Char :=
  before line ++ if Gap.none.across (before line) = .unbroken && isLabel line then inserted else []

theorem sheet_cons (before : List Char → List Char) (first next : List Char)
    (rest : List (List Char)) :
    sheet before first (next :: rest) = first ++ (before next ++ sheet before next rest) := by
  simp [sheet]

theorem sheet_congr {before other : List Char → List Char} (first : List Char)
    {rest : List (List Char)} (h : ∀ line ∈ rest, before line = other line) :
    sheet before first rest = sheet other first rest := by
  unfold sheet
  rw [List.flatMap_congr fun line hline => congrArg (· ++ line) (h line hline)]

theorem infix_sheet (before : List Char → List Char) {line first : List Char}
    {rest : List (List Char)} (h : line ∈ first :: rest) : line <:+: sheet before first rest := by
  unfold sheet
  rcases List.mem_cons.mp h with rfl | h
  · exact (List.prefix_append _ _).isInfix
  · have hbehind : before line ++ line <:+: rest.flatMap fun line => before line ++ line :=
      List.infix_of_mem_flatten (List.mem_map_of_mem h)
    exact ((List.suffix_append _ _).isInfix.trans hbehind).trans (List.suffix_append _ _).isInfix

/-- The line breaks of a sheet are those before its lines. -/
theorem occurrences_sheet {before : List Char → List Char} {first : List Char}
    {rest : List (List Char)} (hlines : ∀ line ∈ first :: rest, '\n' ∉ line) {n : Nat}
    (hbefore : ∀ line, (before line).count '\n' = n) :
    Text.occurrences '\n' (sheet before first rest) = rest.length * n := by
  unfold Text.occurrences
  induction rest generalizing first with
  | nil => simpa [sheet, List.count_eq_zero] using hlines
  | cons next rest ih =>
    obtain ⟨hfirst, hlines⟩ := List.forall_mem_cons.mp hlines
    rw [sheet_cons, List.count_append, List.count_append, ih hlines, hbefore,
      List.count_eq_zero.mpr hfirst, List.length_cons, Nat.succ_mul]
    omega

section

variable {isLabel : List Char → Bool} {inserted : List Char}

/-- A pass leaves a stretch of text alone in which no label stands behind blanks. -/
theorem breakBefore_append {gap : Gap} {text behind : List Char}
    (hstart : gap = .unbroken → text ≠ [] → isLabel (text ++ behind) = false)
    (hinside : ∀ blank rest, blank :: rest <:+ text → Text.isBlank blank = true → rest ≠ [] →
      isLabel (rest ++ behind) = false) :
    breakBefore isLabel inserted gap (text ++ behind)
      = text ++ breakBefore isLabel inserted (gap.across text) behind := by
  induction text generalizing gap with
  | nil => rfl
  | cons c text ih =>
    have hrest : breakBefore isLabel inserted (gap.behind c) (text ++ behind)
        = text ++ breakBefore isLabel inserted ((gap.behind c).across text) behind := ih
      (fun hgap => hinside c text List.suffix_rfl (Gap.isBlank_of_behind hgap))
      (fun blank rest hsuffix => hinside blank rest (hsuffix.trans (List.suffix_cons c text)))
    have hhere : (gap = .unbroken && isLabel (c :: (text ++ behind))) = false := by
      simpa using fun hgap => hstart hgap (List.cons_ne_nil c text)
    rw [List.cons_append, breakBefore]
    simp only [hhere, hrest]
    rfl

variable (hword : IsWord isLabel)

include hword

theorem breakBefore_blanks (gap : Gap) {blanks : List Char}
    (hblanks : ∀ c ∈ blanks, Text.isBlank c = true) (behind : List Char) :
    breakBefore isLabel inserted gap (blanks ++ behind)
      = blanks ++ breakBefore isLabel inserted (gap.across blanks) behind := by
  have hlabel : ∀ rest, rest <:+ blanks → rest ≠ [] → isLabel (rest ++ behind) = false := by
    intro rest hsuffix hne
    obtain ⟨c, rest, rfl⟩ := List.exists_cons_of_ne_nil hne
    exact hword.cons_blank (hblanks c (hsuffix.subset List.mem_cons_self)) _
  exact breakBefore_append (fun _ => hlabel blanks List.suffix_rfl)
    fun blank rest hsuffix _ => hlabel rest ((List.suffix_cons blank rest).trans hsuffix)

variable (hlabel : ∀ text, isLabel text = true → startsLine text = true)

include hlabel

/-- Nothing is inserted into a line, at most before it. -/
theorem breakBefore_line (gap : Gap) {line behind : List Char} (hline : SheetLine line)
    (hbehind : ∀ c ∈ behind.head?, Text.isBlank c = true) :
    breakBefore isLabel inserted gap (line ++ behind)
      = (if gap = .unbroken && isLabel line then inserted else [])
        ++ line ++ breakBefore isLabel inserted .none behind := by
  have hne : line ≠ [] := by
    rintro rfl
    exact absurd hline.labelled (by decide)
  obtain ⟨c, rest, rfl⟩ := List.exists_cons_of_ne_nil hne
  have hc : Text.isBlank c = false :=
    Text.not_isBlank_of_head?_trim (by rw [hline.trimmed]; rfl)
  have hgap : gap.behind c = .none := Gap.behind_of_not_isBlank gap hc
  have hend : Gap.none.across rest = .none := hgap ▸ Gap.across_of_trimmed gap hline.trimmed hne
  have hrest : breakBefore isLabel inserted .none (rest ++ behind)
      = rest ++ breakBefore isLabel inserted .none behind := by
    have hstart : Gap.none = .unbroken → rest ≠ [] → isLabel (rest ++ behind) = false := nofun
    rw [breakBefore_append hstart, hend]
    intro blank text hsuffix hblank _
    have hstarts := hline.single blank text (hsuffix.trans (List.suffix_cons c rest)) hblank
    rw [hword.append text hbehind]
    exact Bool.eq_false_iff.mpr fun h => Bool.false_ne_true (hstarts.symm.trans (hlabel text h))
  have hhere : isLabel (c :: (rest ++ behind)) = isLabel (c :: rest) :=
    hword.append (c :: rest) hbehind
  rw [List.cons_append, breakBefore]
  simp only [hgap, hrest, hhere]
  split
  · rw [List.append_assoc]
    rfl
  · rfl

/-- Nothing but what stands before a line is changed by a pass: the insertion comes behind the
blanks there, if there is no line break among them and the line starts with a label that the pass
looks for. -/
theorem breakBefore_sheet (gap : Gap) {before : List Char → List Char} {first : List Char}
    {rest : List (List Char)} (hlines : ∀ line ∈ first :: rest, SheetLine line)
    (hne : ∀ line, before line ≠ [])
    (hblank : ∀ line, ∀ c ∈ before line, Text.isBlank c = true) :
    breakBefore isLabel inserted gap (sheet before first rest)
      = (if gap = .unbroken && isLabel first then inserted else [])
        ++ sheet (mended isLabel inserted before) first rest := by
  induction rest generalizing gap first with
  | nil =>
    have hfirst := hlines first List.mem_cons_self
    have hbehind : ∀ c ∈ ([] : List Char).head?, Text.isBlank c = true := by simp
    rw [sheet, List.flatMap_nil, breakBefore_line hword hlabel gap hfirst hbehind,
      List.append_assoc]
    rfl
  | cons next rest ih =>
    obtain ⟨hfirst, hlines⟩ := List.forall_mem_cons.mp hlines
    have hbehind : ∀ c ∈ (before next ++ sheet before next rest).head?, Text.isBlank c = true := by
      obtain ⟨d, blanks, hnext⟩ := List.exists_cons_of_ne_nil (hne next)
      rintro c hc
      rw [hnext] at hc
      cases hc
      exact hblank next d (hnext ▸ List.mem_cons_self)
    rw [sheet_cons, sheet_cons, breakBefore_line hword hlabel gap hfirst hbehind,
      breakBefore_blanks hword _ (hblank next), ih _ hlines, mended]
    simp only [List.append_assoc]

theorem breakBefore_start {before : List Char → List Char} {first : List Char}
    {rest : List (List Char)} (hlines : ∀ line ∈ first :: rest, SheetLine line)
    (hne : ∀ line, before line ≠ [])
    (hblank : ∀ line, ∀ c ∈ before line, Text.isBlank c = true) :
    breakBefore isLabel inserted .none (sheet before first rest)
      = sheet (mended isLabel inserted before) first rest :=
  breakBefore_sheet hword hlabel .none hlines hne hblank

end

/-! ## Repair -/

section

variable {first : List Char} {rest : List (List Char)}

theorem repair_brokenSheet (hlines : ∀ line ∈ first :: rest, SheetLine line) :
    repair (sheet (fun _ => ['\n']) first rest) = sheet (fun _ => ['\n']) first rest := by
  have hpass : ∀ {isLabel : List Char → Bool} {inserted : List Char}, IsWord isLabel →
      (∀ text, isLabel text = true → startsLine text = true) →
      breakBefore isLabel inserted .none (sheet (fun _ => ['\n']) first rest)
        = sheet (fun _ => ['\n']) first rest := fun hword hlabel =>
    breakBefore_start hword hlabel hlines (by simp) (by simp [Text.isBlank])
  unfold repair
  split
  · rfl
  · rw [hpass isWord_startsKeyword startsLine_of_startsKeyword,
      hpass isWord_startsMarker startsLine_of_startsMarker]

/-- How far repair indents a line: marked lines are indented, those with a keyword are not. -/
def repairIndent (line : List Char) : List Char := if startsKeyword line then [] else [' ', ' ']

theorem mentionsSection_of_infix {line text : List Char} (h : line <:+: text)
    (hline : Text.startsWithLabel sectionKeyword line = true) : mentionsSection text = true := by
  obtain ⟨before, behind, rfl⟩ := h
  have hascii : sectionKeyword.all (fun d => d.toNat < 0x80) = true := by decide
  have hword := Text.hasWord_iff.mp
    (Text.hasWord_toUpper_of_startsWithLabel (by simpa using hascii) hline)
  unfold mentionsSection
  rw [Text.hasWord_iff, Text.toUpper_append, Text.toUpper_append]
  exact hword.trans (List.infix_append _ _ _)

theorem repair_spacedSheet (hlines : ∀ line ∈ first :: rest, SheetLine line)
    (hsection : mentionsSection (sheet (fun _ => [' ']) first rest) = true) :
    repair (sheet (fun _ => [' ']) first rest)
      = sheet (fun line => ' ' :: '\n' :: repairIndent line) first rest := by
  have hcount : Text.occurrences '\n' (sheet (fun _ => [' ']) first rest) = 0 := by
    exact occurrences_sheet (fun line hline => (hlines line hline).unbroken) (n := 0) fun _ => rfl
  have hkeyword : mended startsKeyword ['\n'] (fun _ => [' '])
      = fun line => if startsKeyword line then [' ', '\n'] else [' '] := by
    funext line
    cases h : startsKeyword line <;> simp [mended, h, Gap.across, Gap.behind, Text.isBlank]
  unfold repair
  rw [hcount, hsection, if_neg (by decide),
    breakBefore_start isWord_startsKeyword startsLine_of_startsKeyword hlines (by simp)
      (by simp [Text.isBlank]), hkeyword,
    breakBefore_start isWord_startsMarker startsLine_of_startsMarker hlines]
  · -- every line has a label: what the first pass has left to the second one starts with a marker
    refine sheet_congr first fun line hline => ?_
    have hlabelled := (hlines line (List.mem_cons_of_mem _ hline)).labelled
    unfold startsLine at hlabelled
    unfold mended repairIndent
    cases hk : startsKeyword line with
    | true => simp [hk, Gap.across, Gap.behind, Text.isBlank]
    | false =>
      have hm : startsMarker line = true := by simpa [hk] using hlabelled
      simp [hk, hm, Gap.across, Gap.behind, Text.isBlank]
  · intro line
    split <;> simp
  · intro line
    split <;> simp [Text.isBlank]

/-! ## Cleaning -/

theorem cleanLine?_congr {line other : List Char} (h : Text.trim line = Text.trim other) :
    cleanLine? line = cleanLine? other := by
  unfold cleanLine?
  rw [h]

/-- What stands at either end of the lines is trimmed away. -/
theorem clean_sheet {trailing : List Char} {indent : List Char → List Char}
    (htrailing : ∀ c ∈ trailing, Text.isBlank c = true ∧ c ≠ '\n')
    (hindent : ∀ line, ∀ c ∈ indent line, Text.isBlank c = true ∧ c ≠ '\n')
    (hlines : ∀ line ∈ first :: rest, '\n' ∉ line) :
    clean (sheet (fun line => trailing ++ '\n' :: indent line) first rest)
      = Text.join ['\n'] ((first :: rest).filterMap cleanLine?) := by
  unfold clean
  congr 1
  induction rest generalizing first with
  | nil =>
    have hfirst : '\n' ∉ first := hlines first List.mem_cons_self
    rw [sheet, List.flatMap_nil, List.append_nil, Text.split_of_not_mem hfirst]
  | cons next rest ih =>
    obtain ⟨hfirst, hnext, hrest⟩ : _ ∧ _ ∧ _ := by simpa using hlines
    have hpiece : '\n' ∉ first ++ trailing := by
      simpa [hfirst] using fun h => (htrailing _ h).2 rfl
    have hindented : '\n' ∉ indent next ++ next := by
      simpa [hnext] using fun h => (hindent next _ h).2 rfl
    -- the indentation of the next line goes to that line
    have hsplit : sheet (fun line => trailing ++ '\n' :: indent line) first (next :: rest)
        = (first ++ trailing) ++ '\n' ::
          sheet (fun line => trailing ++ '\n' :: indent line) (indent next ++ next) rest := by
      simp [sheet]
    have htrimmed : Text.trim (first ++ trailing) = Text.trim first :=
      Text.trim_append first fun c hc => (htrailing c hc).1
    have hunindented : Text.trim (indent next ++ next) = Text.trim next :=
      Text.trim_blanks_append next fun c hc => (hindent next c hc).1
    rw [hsplit, Text.split_append, Text.split_of_not_mem hpiece, List.filterMap_append,
      ih (List.forall_mem_cons.mpr ⟨hindented, hrest⟩)]
    simp only [List.filterMap_cons, List.filterMap_nil, cleanLine?_congr htrimmed,
      cleanLine?_congr hunindented]
    cases cleanLine? first <;> rfl

end

/-! ## Whole sheets -/

variable {α : Type} [Scalar α]

/-- A sheet is read by what is left of it when it is cleaned, and by the number of its lines. -/
theorem read_congr (v : Vocabulary α) {text other : List Char}
    (hclean : clean (repair text) = clean (repair other))
    (hbreaks : Text.occurrences '\n' (repair text) = Text.occurrences '\n' (repair other)) :
    read v (String.ofList text) = read v (String.ofList other) := by
  unfold read textNotes
  simp only [String.toList_ofList, hclean, hbreaks]

/-- **A sheet on one line is read as on many.** Each line starts with a keyword or with a marker and
its colon, in any case, and holds no further one behind a blank; one of them starts a section. Then
blanks in place of the line breaks change nothing: not the score, nor the warnings or the error, nor
even the progress notes. -/
theorem read_oneLine (v : Vocabulary α) {lines : List (List Char)}
    (hlines : ∀ line ∈ lines, SheetLine line)
    (hsection : ∃ line ∈ lines, Text.startsWithLabel sectionKeyword line = true) :
    read v (String.ofList (Text.join [' '] lines))
      = read v (String.ofList (Text.join ['\n'] lines)) := by
  obtain ⟨line, hline, hlabel⟩ := hsection
  cases lines with
  | nil => cases hline
  | cons first rest =>
    have hmentions : mentionsSection (sheet (fun _ => [' ']) first rest) = true :=
      mentionsSection_of_infix (infix_sheet _ hline) hlabel
    have hunbroken : ∀ line ∈ first :: rest, '\n' ∉ line := fun line h => (hlines line h).unbroken
    have hindent : ∀ line, ∀ c ∈ repairIndent line, Text.isBlank c = true ∧ c ≠ '\n' := by
      intro line
      unfold repairIndent
      split <;> simp [Text.isBlank]
    have hspaced := repair_spacedSheet hlines hmentions
    have hbroken := repair_brokenSheet hlines
    rw [Text.join_cons, Text.join_cons]
    change read v (String.ofList (sheet (fun _ => [' ']) first rest))
      = read v (String.ofList (sheet (fun _ => ['\n']) first rest))
    refine read_congr v ?_ ?_
    · have htrailing : ∀ c ∈ [' '], Text.isBlank c = true ∧ c ≠ '\n' := by simp [Text.isBlank]
      have hnothing : ∀ c ∈ ([] : List Char), Text.isBlank c = true ∧ c ≠ '\n' := by simp
      rw [hspaced, hbroken]
      exact (clean_sheet htrailing hindent hunbroken).trans
        (clean_sheet hnothing (fun _ => hnothing) hunbroken).symm
    · have hcount : ∀ line, (' ' :: '\n' :: repairIndent line).count '\n' = 1 := by
        intro line
        unfold repairIndent
        split <;> rfl
      rw [hspaced, hbroken, occurrences_sheet hunbroken hcount]
      exact (occurrences_sheet hunbroken (n := 1) fun _ => rfl).symm

/-- A sheet with comments, an empty value and labels in several cases. -/
def flatLines : List (List Char) :=
  ["SONG: Flat // working title".toList, "Tempo: 100".toList, "key:".toList,
    "SECTION: Verse [2 bars]".toList, "PIANO: Am(h) C(h) | F(w)".toList,
    "drums: kick(1,3)".toList, "Bass:".toList]

theorem read_flatLines :
    (∀ line ∈ flatLines, SheetLine line) ∧
      (∃ line ∈ flatLines, Text.startsWithLabel sectionKeyword line = true) ∧
      read (Vocabulary.standard : Vocabulary Float) (String.ofList (Text.join [' '] flatLines))
        = read Vocabulary.standard (String.ofList (Text.join ['\n'] flatLines)) := by
  have hlines : ∀ line ∈ flatLines, SheetLine line := by
    decide +kernel
  have hsection : ∃ line ∈ flatLines, Text.startsWithLabel sectionKeyword line = true := by
    decide +kernel
  exact ⟨hlines, hsection, read_oneLine _ hlines hsection⟩

end LeadSheet.Sheet
