import LeadSheet.Proofs.Sheet.Markers
import LeadSheet.Proofs.Sheet.Tidy

/-!
# Header fields and their lines

Title, tempo and key should stand on the line of their marker. The readers of them do not look at
lines, though: they pass over blanks behind the marker, and a line break is a blank. In a cleaned
text there are no other blanks around a line break. So a marker at the end of its line takes its
field from the next line, and every other marker takes it from its own (`fieldLine`): a title that
is left empty is the line that follows, whatever it is.

What is read from that line is read from its start, and no further than its end
(`LineReader`). So the three fields are read from the lines of their markers, from the first one
from which they can be read (`fields_of_read`).
-/

namespace LeadSheet.Text

/-- What stands behind each place where a label starts. -/
def behindEach (label text : List Char) : List (List Char) :=
  (text.tails.filter (startsWithLabel label)).map (·.drop label.length)

theorem suffix_of_mem_behindEach {label text rest : List Char} (h : rest ∈ behindEach label text) :
    rest <:+ text := by
  obtain ⟨tail, htail, rfl⟩ := List.mem_map.mp h
  exact (List.drop_suffix _ _).trans ((List.mem_tails _ _).mp (List.mem_filter.mp htail).1)

theorem findSome?_congr {β γ : Type} {f g : β → Option γ} {l : List β}
    (h : ∀ x ∈ l, f x = g x) : l.findSome? f = l.findSome? g := by
  induction l with
  | nil => rfl
  | cons x l ih =>
    obtain ⟨hx, hl⟩ := List.forall_mem_cons.mp h
    rw [List.findSome?_cons, List.findSome?_cons, hx, ih hl]

/-- What is read behind a label is read behind the first one behind which something can be read. -/
theorem behindLabel?_eq_findSome? {β : Type} {label : List Char} (hne : label ≠ [])
    (read? : List Char → Option β) (text : List Char) :
    behindLabel? label read? text = (behindEach label text).findSome? (behindBlanks? read?) := by
  induction text with
  | nil =>
    obtain ⟨d, label, rfl⟩ := List.exists_cons_of_ne_nil hne
    rfl
  | cons c text ih =>
    have hsplit : behindEach label (c :: text)
        = if startsWithLabel label (c :: text) then
            (c :: text).drop label.length :: behindEach label text
          else behindEach label text := by
      unfold behindEach
      rw [List.tails_cons, List.filter_cons]
      split <;> rfl
    rw [behindLabel?, hsplit]
    split
    · rw [List.findSome?_cons, ih]
      cases behindBlanks? read? ((c :: text).drop label.length) <;> rfl
    · exact ih

theorem takeWhile_append_cons {p : Char → Bool} {c : Char} (hc : p c = false)
    (line rest : List Char) : (line ++ c :: rest).takeWhile p = line.takeWhile p := by
  induction line with
  | nil => exact List.takeWhile_cons_of_neg (Bool.eq_false_iff.mp hc)
  | cons d line ih => rw [List.cons_append, List.takeWhile_cons, List.takeWhile_cons, ih]

/-- A line that does not end with a blank is a gap and what is left of it when it is trimmed. -/
theorem exists_gap {line : List Char} (hne : line ≠ [])
    (hlast : ∀ c ∈ line.getLast?, isBlank c = false) :
    ∃ gap c rest, line = gap ++ c :: rest ∧ (∀ b ∈ gap, isBlank b = true) ∧ isBlank c = false ∧
      trim line = c :: rest := by
  have hparts := List.takeWhile_append_dropWhile (p := isBlank) (l := line)
  have hgap : ∀ b ∈ line.takeWhile isBlank, isBlank b = true := fun b hb =>
    List.mem_takeWhile_imp hb
  cases hrest : line.dropWhile isBlank with
  | nil =>
    obtain ⟨c, hc⟩ := Option.ne_none_iff_exists'.mp (mt List.getLast?_eq_none_iff.mp hne)
    have hblank := List.dropWhile_eq_nil_iff.mp hrest c (List.mem_of_getLast? hc)
    exact absurd (hlast c hc) (Bool.not_eq_false _ ▸ hblank)
  | cons c rest =>
    have hc : isBlank c = false := by
      have hnot := List.head?_dropWhile_not isBlank line
      rw [hrest] at hnot
      exact hnot
    rw [hrest] at hparts
    have hend : ∀ d ∈ (c :: rest).getLast?, isBlank d = false := fun d hd => by
      refine hlast d ?_
      rw [← hparts, List.getLast?_append, Option.mem_def.mp hd]
      rfl
    refine ⟨_, c, rest, hparts.symm, hgap, hc, ?_⟩
    have htrim := trimEnd_append_of_not_isBlank hend []
    rw [List.append_nil, trimEnd, List.append_nil] at htrim
    rw [trim, hrest, htrim]

theorem isDigit_of_isBlank {c : Char} (h : isBlank c = true) : c.isDigit = false := by
  simp only [isBlank, Bool.or_eq_true, Bool.and_eq_true, decide_eq_true_eq, beq_iff_eq] at h
  simp only [Char.isDigit, Bool.and_eq_false_iff, decide_eq_false_iff_not, UInt32.le_iff_toNat_le]
  change ¬48 ≤ c.toNat ∨ ¬c.toNat ≤ 57
  omega

end LeadSheet.Text

namespace LeadSheet.Sheet

/-! ## The lines of markers -/

/-- The text up to the next line break. -/
def ownLine (text : List Char) : List Char := text.takeWhile (· ≠ '\n')

/-- The line from which a field is read, given what stands behind its marker: what is left of the
marker's own line, or the next line if nothing is left of it. -/
def fieldLine (behind : List Char) : List Char :=
  if ownLine behind = [] then ownLine (behind.drop 1) else ownLine behind

/-- What can be read behind each marker of a kind, trimmed. -/
def fieldTexts (label : String) (text : List Char) : List (List Char) :=
  (Text.behindEach label.toList text).map fun behind => Text.trim (fieldLine behind)

theorem ownLine_of_not_mem {line : List Char} (h : '\n' ∉ line) : ownLine line = line := by
  refine List.takeWhile_eq_self_iff.mpr fun c hc => decide_eq_true ?_
  rintro rfl
  exact h hc

theorem ownLine_append {line : List Char} (h : '\n' ∉ line) (rest : List Char) :
    ownLine (line ++ '\n' :: rest) = line := by
  rw [ownLine, Text.takeWhile_append_cons (by simp)]
  exact ownLine_of_not_mem h

/-- The rest of a cleaned text from some place on: a line, which does not end with a blank, and
perhaps more lines, of which none starts with one. -/
inductive Rest : List Char → Prop where
  | last {line : List Char} : '\n' ∉ line → (∀ c ∈ line.getLast?, Text.isBlank c = false) →
      Rest line
  | next {line more : List Char} : '\n' ∉ line → (∀ c ∈ line.getLast?, Text.isBlank c = false) →
      (∃ c ∈ more.head?, Text.isBlank c = false) → Rest more → Rest (line ++ '\n' :: more)

theorem Tidy.head {line : List Char} (h : Tidy line) :
    ∃ c ∈ line.head?, Text.isBlank c = false := by
  obtain ⟨c, rest, rfl⟩ := List.exists_cons_of_ne_nil h.ne_nil
  have hhead : c ∈ (Text.trim (c :: rest)).head? := by
    rw [h.trim_eq]
    rfl
  exact ⟨c, rfl, Text.not_isBlank_of_head?_trim hhead⟩

theorem Tidy.last {line : List Char} (h : Tidy line) :
    ∀ c ∈ line.getLast?, Text.isBlank c = false := by
  intro c hc
  rw [← h.trim_eq] at hc
  exact Text.not_isBlank_of_getLast?_trimEnd hc

/-- A line of which the start is missing ends as the whole line does. -/
theorem last_of_suffix {line rest : List Char} (hlast : ∀ c ∈ line.getLast?, Text.isBlank c = false)
    (h : rest <:+ line) : ∀ c ∈ rest.getLast?, Text.isBlank c = false := by
  obtain ⟨before, rfl⟩ := h
  intro c hc
  refine hlast c ?_
  rw [List.getLast?_append, Option.mem_def.mp hc]
  rfl

theorem rest_of_suffix_join {lines : List (List Char)} (hlines : ∀ line ∈ lines, Tidy line)
    {rest : List Char} (h : rest <:+ Text.join ['\n'] lines) : Rest rest := by
  induction lines generalizing rest with
  | nil =>
    obtain rfl : rest = [] := List.suffix_nil.mp h
    exact .last List.not_mem_nil nofun
  | cons line lines ih =>
    obtain ⟨hline, hmore⟩ := List.forall_mem_cons.mp hlines
    have hpart : ∀ {part}, part <:+ line →
        '\n' ∉ part ∧ ∀ c ∈ part.getLast?, Text.isBlank c = false := fun hpart =>
      ⟨fun hmem => hline.unbroken (hpart.subset hmem), last_of_suffix hline.last hpart⟩
    cases lines with
    | nil =>
      rw [Text.join_cons, List.flatMap_nil, List.append_nil] at h
      exact .last (hpart h).1 (hpart h).2
    | cons next lines =>
      have hstart : ∃ c ∈ (Text.join ['\n'] (next :: lines)).head?, Text.isBlank c = false := by
        obtain ⟨c, hc, hblank⟩ := (hmore next List.mem_cons_self).head
        refine ⟨c, ?_, hblank⟩
        rw [Text.join_cons]
        exact List.mem_head?_append_of_mem_head? hc
      have hjoin := ih hmore List.suffix_rfl
      rw [Text.join_cons_of_ne_nil (List.cons_ne_nil _ _)] at h
      obtain ⟨before, hbefore⟩ := h
      rcases List.append_eq_append_iff.mp hbefore with ⟨part, rfl, rfl⟩ | ⟨part, rfl, hrest⟩
      · have hpart := hpart (List.suffix_append before part)
        exact .next hpart.1 hpart.2 hstart hjoin
      · cases part with
        | nil =>
          rw [← List.nil_append rest, ← hrest]
          exact .next List.not_mem_nil nofun hstart hjoin
        | cons c part =>
          -- the line break is part of what is missing, so only later lines are left
          obtain ⟨-, hlater⟩ := List.cons_eq_cons.mp hrest
          exact ih hmore ⟨part, hlater.symm⟩

theorem rest_of_mem_behindEach {label text rest : List Char}
    (h : rest ∈ Text.behindEach label (clean text)) : Rest rest :=
  rest_of_suffix_join (fun _ => tidy_of_mem_keptLines) (Text.suffix_of_mem_behindEach h)

/-! ## Readers of lines -/

/-- A reader that sees no further than to the end of a line, and that does not read from the blanks
before a line what it cannot read from the line itself. -/
structure LineReader {β : Type} (read? : List Char → Option β) : Prop where
  nil : read? [] = none
  append_break : ∀ {line : List Char}, '\n' ∉ line → ∀ more,
    read? (line ++ '\n' :: more) = read? line
  append_gap : ∀ {gap line : List Char} {c : Char}, (∀ b ∈ gap, Text.isBlank b = true) →
    '\n' ∉ gap ++ c :: line → read? (c :: line) = none → read? (gap ++ c :: line) = none

namespace LineReader

variable {β : Type} {read? : List Char → Option β} (h : LineReader read?)

include h

/-- A line that something stands in is read as it is when it is trimmed. -/
theorem behindBlanks?_line {line : List Char} (hne : line ≠ []) (hline : '\n' ∉ line)
    (hlast : ∀ c ∈ line.getLast?, Text.isBlank c = false) {more : List Char}
    (hmore : more = [] ∨ ∃ rest, more = '\n' :: rest) :
    Text.behindBlanks? read? (line ++ more) = read? (Text.trim line) := by
  have hends : ∀ {line : List Char}, '\n' ∉ line → read? (line ++ more) = read? line := by
    intro line hline
    rcases hmore with rfl | ⟨rest, rfl⟩
    · rw [List.append_nil]
    · exact h.append_break hline rest
  obtain ⟨gap, c, rest, rfl, hgap, hc, htrim⟩ := Text.exists_gap hne hlast
  rw [htrim]
  clear hne hlast htrim
  induction gap with
  | nil =>
    rw [List.nil_append] at hline ⊢
    rw [List.cons_append, Text.behindBlanks?, hc, if_neg Bool.false_ne_true, ← List.cons_append,
      hends hline]
  | cons b gap ih =>
    obtain ⟨hb, hgap'⟩ := List.forall_mem_cons.mp hgap
    have hunbroken : '\n' ∉ gap ++ c :: rest := fun hmem => hline (List.mem_cons_of_mem _ hmem)
    rw [List.cons_append, List.cons_append, Text.behindBlanks?, hb, if_pos rfl,
      ih hunbroken hgap', ← List.cons_append, ← List.cons_append, hends hline]
    cases hread : read? (c :: rest) with
    | some x => rfl
    | none => exact h.append_gap hgap hline hread

/-- Behind a marker of a cleaned text a field is read from its line. -/
theorem behindBlanks?_rest {behind : List Char} (hrest : Rest behind) :
    Text.behindBlanks? read? behind = read? (Text.trim (fieldLine behind)) := by
  have hown : ∀ {rest}, Rest rest → ownLine rest ≠ [] →
      Text.behindBlanks? read? rest = read? (Text.trim (ownLine rest)) := by
    intro rest hrest hne
    cases hrest with
    | last hline hlast =>
      rw [ownLine_of_not_mem hline] at hne ⊢
      have hread := h.behindBlanks?_line hne hline hlast (.inl rfl)
      rwa [List.append_nil] at hread
    | next hline hlast =>
      rw [ownLine_append hline] at hne ⊢
      exact h.behindBlanks?_line hne hline hlast (.inr ⟨_, rfl⟩)
  by_cases hne : ownLine behind = []
  · rw [fieldLine, if_pos hne]
    cases hrest with
    | last hline _ =>
      rw [ownLine_of_not_mem hline] at hne
      rw [hne]
      rfl
    | @next line more hline _ hhead hmore =>
      rw [ownLine_append hline] at hne
      subst hne
      obtain ⟨c, hc, hblank⟩ := hhead
      obtain ⟨rest, rfl⟩ := List.head?_eq_some_iff.mp hc
      have hbreak : c ≠ '\n' := by
        rintro rfl
        exact absurd hblank (by decide)
      have hnext : ownLine (c :: rest) ≠ [] := by
        rw [ownLine, List.takeWhile_cons_of_pos (by simpa using hbreak)]
        exact List.cons_ne_nil _ _
      -- from the line break itself nothing is read, so the next line decides
      have hnone : read? ('\n' :: c :: rest) = none :=
        (h.append_break List.not_mem_nil (c :: rest)).trans h.nil
      rw [List.nil_append, Text.behindBlanks?, if_pos (by decide), hown hmore hnext, hnone,
        Option.or_none]
      rfl
  · rw [fieldLine, if_neg hne, hown hrest hne]

/-- A field of a cleaned text is read from the first line of its markers from which it can be. -/
theorem behindLabel?_clean {label : String} (hne : label.toList ≠ []) (text : List Char) :
    Text.behindLabel? label.toList read? (clean text)
      = (fieldTexts label (clean text)).findSome? read? := by
  rw [Text.behindLabel?_eq_findSome? hne, fieldTexts, List.findSome?_map]
  exact Text.findSome?_congr fun rest hrest => h.behindBlanks?_rest (rest_of_mem_behindEach hrest)

end LineReader

/-! ## The three fields -/

/-- Whether a line can be a title: something stands in it, and nothing in it ends a line. -/
def isTitle (line : List Char) : Bool := line ≠ [] && !line.any Text.isLineEnd

theorem titleText?_append {line more : List Char} (hline : '\n' ∉ line)
    (hmore : more = [] ∨ ∃ rest, more = '\n' :: rest) :
    titleText? (line ++ more) = if isTitle line then some line else none := by
  have hparts := List.takeWhile_append_dropWhile (p := fun c => !Text.isLineEnd c) (l := line)
  cases hrest : line.dropWhile fun c => !Text.isLineEnd c with
  | nil =>
    rw [hrest, List.append_nil] at hparts
    have htake : (line ++ more).takeWhile (fun c => !Text.isLineEnd c) = line := by
      rcases hmore with rfl | ⟨rest, rfl⟩
      · rw [List.append_nil, hparts]
      · rw [Text.takeWhile_append_cons (by decide), hparts]
    have hends : line.any Text.isLineEnd = false := by
      simpa using List.dropWhile_eq_nil_iff.mp hrest
    unfold titleText? isTitle
    dsimp only
    rw [htake, List.drop_left, hends]
    rcases hmore with rfl | ⟨rest, rfl⟩ <;> cases line <;> simp
  | cons c after =>
    -- the first line end in the line is no line break, so that the line cannot be read
    rw [hrest] at hparts
    have hc : Text.isLineEnd c = true := by
      have hnot := List.head?_dropWhile_not (fun c => !Text.isLineEnd c) line
      rw [hrest] at hnot
      simpa using hnot
    have hbreak : c ≠ '\n' := by
      rintro rfl
      exact hline (hparts ▸ List.mem_append_right _ List.mem_cons_self)
    have hends : line.any Text.isLineEnd = true := by
      rw [← hparts]
      simp [hc]
    have htake : (line ++ more).takeWhile (fun c => !Text.isLineEnd c)
        = line.takeWhile fun c => !Text.isLineEnd c := by
      conv_lhs => rw [← hparts, List.append_assoc, List.cons_append]
      rw [Text.takeWhile_append_cons (by simp [hc]), List.takeWhile_takeWhile]
      simp
    have hdrop : (line ++ more).drop (line.takeWhile fun c => !Text.isLineEnd c).length
        = c :: (after ++ more) := by
      have hwhole : line ++ more
          = (line.takeWhile fun c => !Text.isLineEnd c) ++ c :: (after ++ more) := by
        rw [← List.cons_append, ← List.append_assoc, hparts]
      rw [hwhole]
      exact List.drop_left
    unfold titleText? isTitle
    dsimp only
    rw [htake, hdrop, hends]
    simp [hbreak]

theorem titleText?_eq {line : List Char} (hline : '\n' ∉ line) :
    titleText? line = if isTitle line then some line else none := by
  have hread := titleText?_append hline (.inl rfl)
  rwa [List.append_nil] at hread

theorem lineReader_title : LineReader titleText? where
  nil := rfl
  append_break hline more := by
    rw [titleText?_append hline (.inr ⟨more, rfl⟩), titleText?_eq hline]
  append_gap {gap line c} _ hline hnone := by
    have hends : (c :: line).any Text.isLineEnd = true := by
      by_contra hends
      rw [titleText?_eq fun hmem => hline (List.mem_append_right _ hmem), isTitle,
        Bool.eq_false_iff.mpr hends] at hnone
      cases hnone
    rw [titleText?_eq hline, isTitle, List.any_append, hends, Bool.or_true]
    exact if_neg (by simp)

theorem lineReader_digits : LineReader digits? where
  nil := rfl
  append_break _ more := by
    unfold digits?
    rw [Text.takeWhile_append_cons (by decide)]
  append_gap {gap line c} hgap _ hnone := by
    cases gap with
    | nil => exact hnone
    | cons b gap =>
      have hb : b.isDigit = false := Text.isDigit_of_isBlank (hgap b List.mem_cons_self)
      unfold digits?
      rw [List.cons_append, List.takeWhile_cons_of_neg (Bool.eq_false_iff.mp hb)]
      rfl

theorem isNoteLetter_of_isBlank {c : Char} (h : Text.isBlank c = true) :
    keyText?.isNoteLetter c = false := by
  rw [keyText?.isNoteLetter, Text.toUpper_of_isBlank h]
  simp only [Text.isBlank, Bool.or_eq_true, Bool.and_eq_true, decide_eq_true_eq, beq_iff_eq] at h
  simp only [Bool.and_eq_false_iff, decide_eq_false_iff_not, Char.le_def, UInt32.le_iff_toNat_le]
  change ¬65 ≤ c.toNat ∨ ¬c.toNat ≤ 71
  omega

theorem filter_take_one_append {p : Char → Bool} (hp : p '\n' = false) (line more : List Char) :
    ((line ++ '\n' :: more).take 1).filter p = (line.take 1).filter p := by
  cases line with
  | nil => simp [hp]
  | cons c line => simp

theorem lineReader_key : LineReader keyText? where
  nil := rfl
  append_break {line} _ more := by
    cases line with
    | nil => rfl
    | cons letter line =>
      have haccidental : ((line.take 1).filter fun c => c == '#' || c == 'b' || c == 'B').length
          ≤ line.length :=
        (List.length_filter_le ..).trans (List.length_take_le' ..)
      unfold keyText?
      rw [List.cons_append]
      dsimp only
      rw [filter_take_one_append (by decide), List.drop_append_of_le_length haccidental,
        filter_take_one_append (by decide)]
  append_gap {gap line c} hgap _ hnone := by
    cases gap with
    | nil => exact hnone
    | cons b gap =>
      have hb : keyText?.isNoteLetter b = false :=
        isNoteLetter_of_isBlank (hgap b List.mem_cons_self)
      rw [List.cons_append, keyText?, hb]
      rfl

theorem digits?_eq_some {text digits : List Char} (h : digits? text = some digits) :
    digits ≠ [] ∧ digits.all Char.isDigit = true ∧ digits <+: text := by
  unfold digits? at h
  dsimp only at h
  split at h
  · cases h
  · next hne =>
    obtain rfl := Option.some.inj h
    exact ⟨hne, List.all_takeWhile, List.takeWhile_prefix _⟩

theorem filter_take_one_isPrefix (p : Char → Bool) (text : List Char) :
    (text.take 1).filter p <+: text := by
  cases text with
  | nil => exact List.nil_prefix
  | cons c text =>
    rw [List.take_succ_cons, List.take_zero, List.filter_cons]
    split
    · exact (List.prefix_cons_inj c).mpr List.nil_prefix
    · exact List.nil_prefix

theorem isPrefix_of_keyText? {text key : List Char} (h : keyText? text = some key) :
    key <+: text := by
  cases text with
  | nil => cases h
  | cons letter rest =>
    unfold keyText? at h
    dsimp only at h
    split at h
    · cases h
    · obtain rfl := Option.some.inj h
      obtain ⟨others, hothers⟩ :=
        filter_take_one_isPrefix (fun c => c == '#' || c == 'b' || c == 'B') rest
      rw [List.cons_append, List.prefix_cons_inj]
      generalize (rest.take 1).filter _ = accidental at hothers ⊢
      rw [← hothers, List.drop_left, List.prefix_append_right_inj]
      exact filter_take_one_isPrefix _ others

theorem mem_fieldTexts {label : String} {text line : List Char} (h : line ∈ fieldTexts label text) :
    '\n' ∉ line ∧ Text.trim line = line := by
  obtain ⟨behind, -, rfl⟩ := List.mem_map.mp h
  refine ⟨fun hbreak => ?_, Text.trim_trim _⟩
  have hown : ∀ rest, '\n' ∉ ownLine rest := fun rest hmem => by
    simpa using List.mem_takeWhile_imp hmem
  have hmem := (Text.infix_trim _).subset hbreak
  unfold fieldLine at hmem
  split at hmem <;> exact hown _ hmem

/-- What is read from the line of some marker. -/
theorem exists_of_findSome?_fieldTexts {β : Type} {read? : List Char → Option β} {label : String}
    {text : List Char} {x : β} (h : (fieldTexts label text).findSome? read? = some x) :
    ∃ behind ∈ Text.behindEach label.toList text,
      read? (Text.trim (fieldLine behind)) = some x := by
  obtain ⟨line, hline, hread⟩ := List.exists_of_findSome?_eq_some h
  obtain ⟨behind, hbehind, rfl⟩ := List.mem_map.mp hline
  exact ⟨behind, hbehind, hread⟩

/-- If what is left of the line of the first marker can be a title, it is the title. -/
theorem find?_isTitle_fieldTexts {label : String} {text : List Char}
    (h : ∀ behind ∈ (Text.behindEach label.toList text).head?,
      isTitle (Text.trim (ownLine behind)) = true) :
    (fieldTexts label text).find? isTitle
      = (Text.behindEach label.toList text).head?.map fun behind =>
        Text.trim (ownLine behind) := by
  rw [fieldTexts]
  cases hbehind : Text.behindEach label.toList text with
  | nil => rfl
  | cons behind others =>
    have hown : isTitle (Text.trim (ownLine behind)) = true := by
      rw [hbehind] at h
      exact h behind rfl
    have hne : ownLine behind ≠ [] := fun hnil => by
      rw [hnil] at hown
      cases hown
    rw [List.map_cons, fieldLine, if_neg hne, List.find?_cons_of_pos hown]
    rfl

/-- The title of a cleaned text is the first line of its markers that can be one. -/
theorem titleOf_clean (text : List Char) : titleOf (clean text)
    = ((fieldTexts "SONG:" (clean text)).find? isTitle).elim Default.title String.ofList := by
  have hread : (fieldTexts "SONG:" (clean text)).findSome? titleText?
      = (fieldTexts "SONG:" (clean text)).find? isTitle := by
    rw [← List.findSome?_guard]
    refine Text.findSome?_congr fun line hline => ?_
    rw [titleText?_eq (mem_fieldTexts hline).1]
    rfl
  rw [titleOf, lineReader_title.behindLabel?_clean (by decide), hread]
  cases hfind : (fieldTexts "SONG:" (clean text)).find? isTitle with
  | none => rfl
  | some title =>
    have hne : title ≠ [] := by
      have hcan := List.find?_some hfind
      rw [isTitle, Bool.and_eq_true, decide_eq_true_eq] at hcan
      exact hcan.1
    show orElse Default.title (Text.trim title) = String.ofList title
    rw [(mem_fieldTexts (List.mem_of_find?_eq_some hfind)).2, orElse, if_neg hne]

/-- The digits of the tempo of a cleaned text are those that start the first line of its markers
that starts with one. -/
theorem tempoDigits?_clean (text : List Char) :
    tempoDigits? (clean text) = (fieldTexts "TEMPO:" (clean text)).findSome? digits? :=
  lineReader_digits.behindLabel?_clean (by decide) text

/-- The key of a cleaned text starts the first line of its markers that starts with one. -/
theorem keyOf_clean (text : List Char) : keyOf (clean text)
    = ((fieldTexts "KEY:" (clean text)).findSome? keyText?).elim Default.key String.ofList := by
  rw [keyOf, lineReader_key.behindLabel?_clean (by decide)]
  cases (fieldTexts "KEY:" (clean text)).findSome? keyText? <;> rfl

/-! ## Sheets -/

section

variable {α : Type} [Scalar α] {v : Vocabulary α} {text : String} {s : Score α}

theorem header_of_outcome (h : (read v text).outcome = .ok s) :
    s.title = titleOf (clean (repair text.toList)) ∧ s.key = keyOf (clean (repair text.toList)) ∧
      s.tempo = Scalar.ofNat
        (counted (tempoDigits? (clean (repair text.toList))) Default.tempo).value := by
  unfold read at h
  dsimp only at h
  split at h
  · cases h
  · generalize clean (repair text.toList) = cleaned at h ⊢
    unfold readCleaned at h
    dsimp only at h
    split at h
    · cases h
    · obtain rfl := Except.ok.inj h
      exact ⟨rfl, rfl, rfl⟩

/-- **Header fields are read from the lines of their markers.** The title of a sheet is the first
line of its `SONG:` markers that can be one, the digits of its tempo start the first line of its
`TEMPO:` markers that starts with a digit, and the key starts the first line of its `KEY:` markers
that starts with one. The line of a marker is what is left of its own line, unless the marker ends
it: then it is the next line.

So the title is what stands behind the first `SONG:` on its line, if that can be a title; without
such a marker the title is the default one. Tempo and key are defaults, or stand at the start of the
line of a marker. -/
theorem fields_of_read (v : Vocabulary α) (h : (read v text).outcome = .ok s) :
    let cleaned := clean (repair text.toList)
    (s.title = ((fieldTexts "SONG:" cleaned).find? isTitle).elim Default.title String.ofList ∧
      s.tempo = Scalar.ofNat
        (counted ((fieldTexts "TEMPO:" cleaned).findSome? digits?) Default.tempo).value ∧
      s.key
        = ((fieldTexts "KEY:" cleaned).findSome? keyText?).elim Default.key String.ofList) ∧
    ((∀ behind ∈ (Text.behindEach "SONG:".toList cleaned).head?,
        isTitle (Text.trim (ownLine behind)) = true) →
      s.title = (Text.behindEach "SONG:".toList cleaned).head?.elim Default.title fun behind =>
        String.ofList (Text.trim (ownLine behind))) ∧
    (s.tempo = Scalar.ofNat Default.tempo ∨
      ∃ behind ∈ Text.behindEach "TEMPO:".toList cleaned, ∃ digits,
        digits ≠ [] ∧ digits.all Char.isDigit = true ∧
        digits <+: Text.trim (fieldLine behind) ∧
        s.tempo = Scalar.ofNat (Numeral.ofDigits 10 digits)) ∧
    (s.key = Default.key ∨
      ∃ behind ∈ Text.behindEach "KEY:".toList cleaned, ∃ key,
        key <+: Text.trim (fieldLine behind) ∧ s.key = String.ofList key) := by
  intro cleaned
  obtain ⟨htitle, hkey, htempo⟩ := header_of_outcome h
  rw [titleOf_clean] at htitle
  rw [keyOf_clean] at hkey
  rw [tempoDigits?_clean] at htempo
  refine ⟨⟨htitle, htempo, hkey⟩, fun hcan => ?_, ?_, ?_⟩
  · rw [htitle, find?_isTitle_fieldTexts hcan, Option.elim_map]
    rfl
  · cases hfind : (fieldTexts "TEMPO:" cleaned).findSome? digits? with
    | none =>
      rw [hfind] at htempo
      exact .inl htempo
    | some digits =>
      obtain ⟨behind, hbehind, hdigits⟩ := exists_of_findSome?_fieldTexts hfind
      obtain ⟨hne, hall, hbegins⟩ := digits?_eq_some hdigits
      rw [hfind, counted] at htempo
      -- digits that write zero are read, too, and the default stands in for them
      split at htempo
      · exact .inl htempo
      · exact .inr ⟨behind, hbehind, digits, hne, hall, hbegins, htempo⟩
  · cases hfind : (fieldTexts "KEY:" cleaned).findSome? keyText? with
    | none =>
      rw [hfind] at hkey
      exact .inl hkey
    | some key =>
      obtain ⟨behind, hbehind, hread⟩ := exists_of_findSome?_fieldTexts hfind
      rw [hfind] at hkey
      exact .inr ⟨behind, hbehind, key, isPrefix_of_keyText? hread, hkey⟩

end

/-- A sheet whose keywords are not all in upper case. -/
def quietHeader : String := "Song: Blue Hour\nTempo: 96\nKey: F#m\nSection: A [1 bars]\n"

theorem fields_of_read_quietHeader :
    ∃ s, (read (Vocabulary.standard : Vocabulary Float) quietHeader).outcome = .ok s ∧
      s.title = "Blue Hour" ∧ s.tempo = Scalar.ofNat 96 ∧ s.key = "F#m" := by
  have hcleaned : clean (repair quietHeader.toList)
      = "Song: Blue Hour\nTempo: 96\nKey: F#m\nSection: A [1 bars]".toList := by
    decide +kernel
  have hmarkers : markers (clean (repair quietHeader.toList)) ≠ [] := by
    rw [hcleaned]
    decide +kernel
  have hscore : ∃ s, (read (Vocabulary.standard : Vocabulary Float) quietHeader).outcome = .ok s :=
    exists_outcome_of_markers hmarkers
  obtain ⟨s, hs⟩ := hscore
  obtain ⟨⟨htitle, htempo, hkey⟩, -⟩ := fields_of_read (Vocabulary.standard : Vocabulary Float) hs
  rw [hcleaned] at htitle htempo hkey
  refine ⟨s, hs, ?_, ?_, ?_⟩
  · rw [htitle]
    decide +kernel
  · rw [htempo]
    exact congrArg Scalar.ofNat (by decide +kernel)
  · rw [hkey]
    decide +kernel

/-- A sheet whose title and key are left empty. -/
def emptyHeader : String := "SONG:\nSECTION: A [1 bars]\nKEY:\nBASS: C2(w)\n"

/-- Fields left empty are read from lines that are not theirs: here nothing stands behind the one
`SONG:` and the one `KEY:` of the sheet, the title is the first line of the section, and the key is
the first letter of an instrument. -/
theorem empty_fields_read_on :
    let cleaned := clean (repair emptyHeader.toList)
    (Text.behindEach "SONG:".toList cleaned).map ownLine = [[]] ∧
      (Text.behindEach "KEY:".toList cleaned).map ownLine = [[]] ∧
      ∃ s, (read (Vocabulary.standard : Vocabulary Float) emptyHeader).outcome = .ok s ∧
        s.title = "SECTION: A [1 bars]" ∧ s.key = "B" := by
  have hcleaned : clean (repair emptyHeader.toList)
      = "SONG:\nSECTION: A [1 bars]\nKEY:\nBASS: C2(w)".toList := by
    decide +kernel
  have hmarkers : markers (clean (repair emptyHeader.toList)) ≠ [] := by
    rw [hcleaned]
    decide +kernel
  have hscore : ∃ s, (read (Vocabulary.standard : Vocabulary Float) emptyHeader).outcome = .ok s :=
    exists_outcome_of_markers hmarkers
  obtain ⟨s, hs⟩ := hscore
  obtain ⟨htitle, hkey, -⟩ := header_of_outcome hs
  rw [hcleaned] at htitle hkey
  intro cleaned
  refine ⟨?_, ?_, s, hs, ?_, ?_⟩
  · rw [show cleaned = _ from hcleaned]
    decide +kernel
  · rw [show cleaned = _ from hcleaned]
    decide +kernel
  · rw [htitle]
    decide +kernel
  · rw [hkey]
    decide +kernel

end LeadSheet.Sheet
