import LeadSheet.Proofs.Sheet.Repair

/-!
# What cleaning leaves

A line that is left of a text when it is cleaned is tidy: something stands in it, neither end is
blank, it is no code fence, and no mark of a comment to the end of the line is left (`Tidy`). A
comment should be left only if it mentions a section. But that is asked of the line before it is
cut at the mark, and the mention may stand behind the mark: then the comment is left without it
(`LosesMention`).

A tidy line is left as it is when the text is cleaned once more, unless it is such a comment, which
is now dropped (`Tidy.cleanLine?_eq`). So texts without such lines are clean after one pass, and all
texts are after two (`clean_tidy`).
-/

namespace LeadSheet.Text

/-- The word does not occur before its first occurrence. -/
theorem not_infix_before {word : List Char} (hne : word ≠ []) (text : List Char) :
    ¬word <:+: before word text := by
  induction text with
  | nil => exact fun h => hne (List.infix_nil.mp h)
  | cons c text ih =>
    rw [before]
    split
    · exact fun h => hne (List.infix_nil.mp h)
    · next hstart =>
      intro h
      rcases List.infix_cons_iff.mp h with hbegins | hlater
      · exact hstart (List.isPrefixOf_iff_prefix.mpr
          (hbegins.trans ((List.prefix_cons_inj c).mpr (prefix_before word text))))
      · exact ih hlater

/-- Behind a start that is no blank, trimming takes away from the end only. -/
theorem trim_isPrefix_of_isPrefix_trim {text start : List Char} (h : start <+: trim text) :
    trim start <+: start := by
  cases start with
  | nil => exact List.prefix_rfl
  | cons c start =>
    obtain ⟨rest, hrest⟩ := h
    have hhead : c ∈ (trim text).head? := hrest ▸ rfl
    have hc : isBlank c = false := not_isBlank_of_head?_trim hhead
    rw [trim, List.dropWhile_cons_of_neg (Bool.eq_false_iff.mp hc)]
    exact prefix_trimEnd _

/-- Pieces that are not empty are told from what they give when they are joined. -/
theorem join_injective {separator : Char} {pieces others : List (List Char)}
    (hpieces : ∀ piece ∈ pieces, piece ≠ [] ∧ separator ∉ piece)
    (hothers : ∀ piece ∈ others, piece ≠ [] ∧ separator ∉ piece)
    (h : join [separator] pieces = join [separator] others) : pieces = others := by
  have hnil : ∀ {pieces : List (List Char)}, (∀ piece ∈ pieces, piece ≠ [] ∧ separator ∉ piece) →
      join [separator] pieces = [] → pieces = [] := by
    intro pieces hpieces hjoin
    cases pieces with
    | nil => rfl
    | cons piece pieces =>
      rw [join_cons] at hjoin
      exact absurd (List.append_eq_nil_iff.mp hjoin).1 (hpieces piece List.mem_cons_self).1
  by_cases hne : pieces = []
  · subst hne
    exact (hnil hothers h.symm).symm
  · have hne' : others ≠ [] := by
      rintro rfl
      exact hne (hnil hpieces h)
    rw [← split_join hne fun piece hpiece => (hpieces piece hpiece).2, h,
      split_join hne' fun piece hpiece => (hothers piece hpiece).2]

end LeadSheet.Text

namespace LeadSheet.Sheet

/-! ## Single lines -/

/-- What starts a line that opens or closes a block of code. -/
def fence : List Char := ['`', '`', '`']

/-- Whether a line mentions a section, in any case. -/
def saysSection (line : List Char) : Bool := Text.hasWord "SECTION".toList (Text.toUpper line)

/-- What stands in a line before the mark of a comment that runs to its end. -/
def beforeMark (line : List Char) : List Char :=
  Text.trim (Text.before commentMark (Text.trim line))

/-- A line that has nothing left to clean, short of being a comment. -/
structure Tidy (line : List Char) : Prop where
  ne_nil : line ≠ []
  trim_eq : Text.trim line = line
  unbroken : '\n' ∉ line
  unmarked : ¬commentMark <:+: line
  unfenced : ¬fence <+: line

/-- A comment that mentions a section, but not before the mark that cuts the line. -/
structure LosesMention (line : List Char) : Prop where
  mentions : saysSection (Text.trim line) = true
  isComment : isComment (beforeMark line) = true
  silent : saysSection (beforeMark line) = false

section

variable {line kept : List Char}

theorem beforeMark_isPrefix (line : List Char) : beforeMark line <+: Text.trim line :=
  (Text.trim_isPrefix_of_isPrefix_trim (Text.prefix_before _ _)).trans (Text.prefix_before _ _)

theorem cleanLine?_eq_some_iff : cleanLine? line = some kept ↔
    kept ≠ [] ∧ kept = beforeMark line ∧ ¬fence <+: Text.trim line ∧
      (isComment (Text.trim line) = true → saysSection (Text.trim line) = true) := by
  have hcut : (if Text.hasWord commentMark (Text.trim line) then
      Text.trim (Text.before commentMark (Text.trim line)) else Text.trim line)
      = beforeMark line := by
    split
    · rfl
    · next hmark =>
      rw [beforeMark, Text.before_of_not_hasWord (Bool.eq_false_iff.mpr hmark), Text.trim_trim]
  have hfence : ['`', '`', '`'].isPrefixOf (Text.trim line) = true ↔ fence <+: Text.trim line :=
    List.isPrefixOf_iff_prefix
  have hempty : Text.trim line = [] → beforeMark line = [] := fun hnil =>
    List.prefix_nil.mp (hnil ▸ beforeMark_isPrefix line)
  unfold cleanLine?
  dsimp only
  rw [hcut]
  simp only [Bool.or_eq_true, decide_eq_true_eq, hfence]
  change (if _ then none else if (isComment _ && !saysSection _) = true then none else _) = _ ↔ _
  split_ifs with hnone hcomment hnil
  · refine iff_of_false nofun ?_
    rintro ⟨hne, rfl, hunfenced, -⟩
    exact hnone.elim (fun h => hne (hempty h)) hunfenced
  · refine iff_of_false nofun ?_
    rintro ⟨-, -, -, hmentions⟩
    obtain ⟨hcomment, hsilent⟩ := Bool.and_eq_true_iff.mp hcomment
    rw [hmentions hcomment] at hsilent
    cases hsilent
  · refine iff_of_false nofun ?_
    rintro ⟨hne, rfl, -⟩
    exact hne hnil
  · rw [Option.some.injEq]
    constructor
    · rintro rfl
      exact ⟨hnil, rfl, fun h => hnone (.inr h), fun h => by simpa [h] using hcomment⟩
    · rintro ⟨-, rfl, -⟩
      rfl

theorem isComment_of_isPrefix (h : kept <+: line) (hkept : isComment kept = true) :
    isComment line = true := by
  simp only [isComment, Bool.or_eq_true, List.isPrefixOf_iff_prefix] at hkept ⊢
  exact hkept.imp (Or.imp (·.trans h) (·.trans h)) (·.trans h)

theorem not_fence_of_isComment (h : isComment line = true) : ¬fence <+: line := by
  rintro ⟨rest, rfl⟩
  simp [isComment, fence, commentMark, List.isPrefixOf] at h

/-- What is left of a line is tidy. -/
theorem tidy_of_cleanLine? (hline : '\n' ∉ line) (h : cleanLine? line = some kept) :
    Tidy kept := by
  obtain ⟨hne, rfl, hunfenced, -⟩ := cleanLine?_eq_some_iff.mp h
  have hbegins := beforeMark_isPrefix line
  refine ⟨hne, Text.trim_trim _, fun hmem => hline ?_, ?_, fun h => hunfenced (h.trans hbegins)⟩
  · exact (hbegins.isInfix.trans (Text.infix_trim line)).subset hmem
  · -- the line was cut at its first mark, so a mark that is left would be an earlier one
    intro hmark
    exact Text.not_infix_before (by simp [commentMark]) _ (hmark.trans (Text.infix_trim _))

/-- A line of which a comment is left that does not mention a section has lost its mention. -/
theorem losesMention_iff : LosesMention line ↔
    ∃ kept, cleanLine? line = some kept ∧ isComment kept = true ∧ saysSection kept = false := by
  constructor
  · rintro ⟨hmentions, hcomment, hsilent⟩
    have hwhole := isComment_of_isPrefix (beforeMark_isPrefix line) hcomment
    refine ⟨beforeMark line, cleanLine?_eq_some_iff.mpr ⟨?_, rfl, ?_, fun _ => hmentions⟩,
      hcomment, hsilent⟩
    · intro hnil
      rw [hnil] at hcomment
      cases hcomment
    · exact not_fence_of_isComment hwhole
  · rintro ⟨kept, hkept, hcomment, hsilent⟩
    obtain ⟨-, rfl, -, hmentions⟩ := cleanLine?_eq_some_iff.mp hkept
    exact ⟨hmentions (isComment_of_isPrefix (beforeMark_isPrefix line) hcomment), hcomment, hsilent⟩

/-- Of a tidy line all is left, unless it is a comment that mentions no section. -/
theorem Tidy.cleanLine?_eq (h : Tidy line) :
    cleanLine? line = if isComment line && !saysSection line then none else some line := by
  have hbefore : beforeMark line = line := by
    have hmark := Bool.eq_false_iff.mpr (mt Text.hasWord_iff.mp h.unmarked)
    rw [beforeMark, h.trim_eq, Text.before_of_not_hasWord hmark, h.trim_eq]
  split
  · next hdropped =>
    obtain ⟨hcomment, hsilent⟩ := Bool.and_eq_true_iff.mp hdropped
    rw [Option.eq_none_iff_forall_ne_some]
    intro kept hkept
    obtain ⟨-, -, -, hmentions⟩ := cleanLine?_eq_some_iff.mp hkept
    rw [h.trim_eq] at hmentions
    rw [hmentions hcomment] at hsilent
    cases hsilent
  · next hkept =>
    refine cleanLine?_eq_some_iff.mpr ⟨h.ne_nil, hbefore.symm, ?_, fun hcomment => ?_⟩
    · rw [h.trim_eq]
      exact h.unfenced
    · rw [h.trim_eq] at hcomment ⊢
      simpa [hcomment] using hkept

end

/-! ## Whole texts -/

/-- What is left of the lines of a text. -/
def keptLines (text : List Char) : List (List Char) := (Text.split '\n' text).filterMap cleanLine?

theorem clean_eq_join (text : List Char) : clean text = Text.join ['\n'] (keptLines text) := rfl

theorem tidy_of_mem_keptLines {text line : List Char} (h : line ∈ keptLines text) : Tidy line := by
  obtain ⟨given, hgiven, hline⟩ := List.mem_filterMap.mp h
  exact tidy_of_cleanLine? (Text.not_mem_of_mem_split hgiven) hline

/-- The lines of a cleaned text, if it has any. -/
theorem split_clean (text : List Char) :
    keptLines text = [] ∧ clean text = [] ∨ Text.split '\n' (clean text) = keptLines text := by
  by_cases hne : keptLines text = []
  · rw [clean_eq_join, hne]
    exact .inl ⟨rfl, rfl⟩
  · exact .inr (Text.split_join hne fun line hline => (tidy_of_mem_keptLines hline).unbroken)

/-- What a second pass drops is comments that do not mention a section. -/
theorem keptLines_clean (text : List Char) : keptLines (clean text)
    = (keptLines text).filter fun line => !(isComment line && !saysSection line) := by
  have hlines : keptLines (clean text) = (keptLines text).filterMap cleanLine? := by
    rcases split_clean text with ⟨hnone, hnil⟩ | hsplit
    · rw [hnil, hnone]
      rfl
    · rw [← hsplit]
      rfl
  rw [hlines, ← List.filterMap_eq_filter]
  refine List.filterMap_congr fun line hline => ?_
  rw [(tidy_of_mem_keptLines hline).cleanLine?_eq, Option.guard]
  cases isComment line && !saysSection line <;> rfl

/-- Two texts of which different lines are left are left different. -/
theorem clean_inj {text other : List Char} :
    clean text = clean other ↔ keptLines text = keptLines other := by
  have hpieces : ∀ text, ∀ line ∈ keptLines text, line ≠ [] ∧ '\n' ∉ line := fun text line hline =>
    ⟨(tidy_of_mem_keptLines hline).ne_nil, (tidy_of_mem_keptLines hline).unbroken⟩
  exact ⟨Text.join_injective (hpieces text) (hpieces other), congrArg (Text.join ['\n'])⟩

/-- **Lines that are left are tidy.** Every line of a cleaned text is tidy, and mentions a section
if it is a comment, or is what is left of a comment whose only mention of one stood behind the mark
that cut it. Cleaning once more changes nothing if and only if the text has no such line; cleaning a
third time never does. -/
theorem clean_tidy (text : List Char) :
    (clean text = [] ∨ ∀ line ∈ Text.split '\n' (clean text), Tidy line ∧
      (isComment line = true → saysSection line = true ∨
        ∃ given ∈ Text.split '\n' text, LosesMention given ∧ line = beforeMark given)) ∧
    (clean (clean text) = clean text ↔ ∀ line ∈ Text.split '\n' text, ¬LosesMention line) ∧
    clean (clean (clean text)) = clean (clean text) := by
  refine ⟨?_, ?_, ?_⟩
  · rcases split_clean text with ⟨-, hnil⟩ | hsplit
    · exact .inl hnil
    · refine .inr fun line hline => ?_
      rw [hsplit] at hline
      refine ⟨tidy_of_mem_keptLines hline, fun hcomment => ?_⟩
      obtain ⟨given, hgiven, hkept⟩ := List.mem_filterMap.mp hline
      cases hsays : saysSection line with
      | true => exact .inl rfl
      | false =>
        exact .inr ⟨given, hgiven, losesMention_iff.mpr ⟨line, hkept, hcomment, hsays⟩,
          (cleanLine?_eq_some_iff.mp hkept).2.1⟩
  · rw [clean_inj, keptLines_clean, List.filter_eq_self]
    constructor
    · intro hall given hgiven hloses
      obtain ⟨kept, hkept, hcomment, hsilent⟩ := losesMention_iff.mp hloses
      have hstays := hall kept (List.mem_filterMap.mpr ⟨given, hgiven, hkept⟩)
      simp [hcomment, hsilent] at hstays
    · intro hnone line hline
      obtain ⟨given, hgiven, hkept⟩ := List.mem_filterMap.mp hline
      by_contra hdropped
      exact hnone given hgiven (losesMention_iff.mpr ⟨line, hkept, by simpa using hdropped⟩)
  · rw [clean_inj, keptLines_clean, keptLines_clean, List.filter_filter]
    simp only [Bool.and_self]

/-- A comment that is kept for a section, which is then cut off, is dropped by a second pass. -/
theorem mention_cut_off :
    let text := "# Bridge // SECTION: A".toList
    clean text = "# Bridge".toList ∧ isComment "# Bridge".toList = true ∧
      saysSection "# Bridge".toList = false ∧ clean (clean text) ≠ clean text := by
  decide +kernel

end LeadSheet.Sheet
