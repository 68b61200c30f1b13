import LeadSheet.Text.Case
import LeadSheet.Text.Scan
import Mathlib.Data.List.Basic
import Mathlib.Data.List.TakeWhile

/-!
# Splitting, trimming and finding

What the readers of sheets rely on: cutting at a separator goes through `++`, trimming does not mind
further blanks at either end, and a label is a word, so that nothing behind a blank has a say in
whether it starts here.
-/

namespace LeadSheet.Text

/-! ## Cutting and joining -/

theorem split_ne_nil (separator : Char) (text : List Char) : split separator text ≠ [] := by
  cases text with
  | nil => exact List.cons_ne_nil _ _
  | cons c text =>
    rw [split]
    split
    · exact List.cons_ne_nil _ _
    · split <;> exact List.cons_ne_nil _ _

theorem split_cons_self (separator : Char) (text : List Char) :
    split separator (separator :: text) = [] :: split separator text := by
  rw [split, if_pos rfl]

/-- A character that is no separator goes to the first piece. -/
theorem exists_split_cons {separator c : Char} (hc : c ≠ separator) (text : List Char) :
    ∃ piece pieces, split separator text = piece :: pieces ∧
      split separator (c :: text) = (c :: piece) :: pieces := by
  obtain ⟨piece, pieces, hsplit⟩ := List.exists_cons_of_ne_nil (split_ne_nil separator text)
  refine ⟨piece, pieces, hsplit, ?_⟩
  rw [split, if_neg hc, hsplit]

theorem split_eq_splitOn (separator : Char) (text : List Char) :
    split separator text = text.splitOn separator := by
  induction text with
  | nil => exact (List.splitOn_nil separator).symm
  | cons c text ih =>
    rw [List.splitOn_cons_eq_if_modifyHead, ← ih]
    by_cases hc : c = separator
    · rw [if_pos (beq_iff_eq.mpr hc), hc, split_cons_self]
    · obtain ⟨piece, pieces, hsplit, hcons⟩ := exists_split_cons hc text
      rw [if_neg (beq_iff_eq.not.mpr hc), hsplit, hcons, List.modifyHead_cons]

theorem split_append (separator : Char) (text rest : List Char) :
    split separator (text ++ separator :: rest) = split separator text ++ split separator rest := by
  simp only [split_eq_splitOn, List.splitOn_append_cons_self]

theorem split_of_not_mem {separator : Char} {text : List Char} (h : separator ∉ text) :
    split separator text = [text] := by
  rw [split_eq_splitOn, List.splitOn_eq_singleton h]

theorem join_split (separator : Char) (text : List Char) :
    join [separator] (split separator text) = text := by
  rw [join, split_eq_splitOn, List.intercalate_splitOn]

/-- Pieces that are joined fall apart again. -/
theorem split_join {separator : Char} {pieces : List (List Char)} (hne : pieces ≠ [])
    (h : ∀ piece ∈ pieces, separator ∉ piece) :
    split separator (join [separator] pieces) = pieces := by
  rw [join, split_eq_splitOn, List.splitOn_intercalate separator h hne]

theorem not_mem_of_mem_split {separator : Char} {text piece : List Char}
    (h : piece ∈ split separator text) : separator ∉ piece := by
  induction text generalizing piece with
  | nil =>
    rw [List.mem_singleton.mp h]
    exact List.not_mem_nil
  | cons c text ih =>
    by_cases hc : c = separator
    · subst hc
      rw [split_cons_self] at h
      rcases List.mem_cons.mp h with rfl | h
      · exact List.not_mem_nil
      · exact ih h
    · obtain ⟨first, pieces, hsplit, hcons⟩ := exists_split_cons hc text
      rw [hcons] at h
      rw [hsplit] at ih
      rcases List.mem_cons.mp h with rfl | h
      · intro hmem
        rcases List.mem_cons.mp hmem with rfl | hmem
        · exact hc rfl
        · exact ih List.mem_cons_self hmem
      · exact ih (List.mem_cons_of_mem _ h)

theorem length_split (separator : Char) (text : List Char) :
    (split separator text).length = text.count separator + 1 := by
  induction text with
  | nil => rfl
  | cons c text ih =>
    by_cases hc : c = separator
    · subst hc
      rw [split_cons_self, List.length_cons, ih, List.count_cons_self]
    · obtain ⟨piece, pieces, hsplit, hcons⟩ := exists_split_cons hc text
      rw [hcons, List.count_cons_of_ne hc, ← ih, hsplit, List.length_cons, List.length_cons]

theorem join_cons (separator piece : List Char) (pieces : List (List Char)) :
    join separator (piece :: pieces) = piece ++ pieces.flatMap (separator ++ ·) := by
  unfold join
  induction pieces generalizing piece with
  | nil => simp
  | cons next pieces ih =>
    rw [List.intercalate_cons_cons, ih]
    simp

theorem join_cons_of_ne_nil {separator : Char} {pieces : List (List Char)} (hne : pieces ≠ [])
    (piece : List Char) :
    join [separator] (piece :: pieces) = piece ++ separator :: join [separator] pieces := by
  rw [join, List.intercalate_cons_of_ne_nil hne, List.append_assoc]
  rfl

/-- Pieces stand in the text. -/
theorem infix_of_mem_split {separator : Char} {text piece : List Char}
    (h : piece ∈ split separator text) : piece <:+: text := by
  obtain ⟨before, after, hpieces⟩ := List.append_of_mem h
  rw [← join_split separator text, hpieces]
  clear hpieces h
  induction before with
  | nil =>
    rw [List.nil_append, join_cons]
    exact (List.prefix_append _ _).isInfix
  | cons first before ih =>
    rw [List.cons_append, join_cons_of_ne_nil (by simp)]
    exact ih.trans ⟨first ++ [separator], [], by simp⟩

/-! ## Trimming -/

section

variable {text blanks : List Char}

theorem trimEnd_of_blank (h : ∀ c ∈ blanks, isBlank c = true) : trimEnd blanks = [] := by
  induction blanks with
  | nil => rfl
  | cons c blanks ih =>
    obtain ⟨hc, hblanks⟩ := List.forall_mem_cons.mp h
    rw [trimEnd, ih hblanks]
    exact if_pos hc

theorem trimEnd_append (text : List Char) (h : ∀ c ∈ blanks, isBlank c = true) :
    trimEnd (text ++ blanks) = trimEnd text := by
  induction text with
  | nil => exact trimEnd_of_blank h
  | cons c text ih => rw [List.cons_append, trimEnd, trimEnd, ih]

theorem prefix_trimEnd (text : List Char) : trimEnd text <+: text := by
  induction text with
  | nil => exact List.prefix_rfl
  | cons c text ih =>
    rw [trimEnd]
    split
    · split
      · exact List.nil_prefix
      · exact ⟨text, rfl⟩
    · exact (List.prefix_cons_inj c).mpr ih

theorem infix_trim (text : List Char) : trim text <:+: text :=
  (prefix_trimEnd _).isInfix.trans (List.dropWhile_suffix isBlank).isInfix

/-- Only blanks at the very end are trimmed away. -/
theorem trimEnd_append_of_not_isBlank {start : List Char}
    (h : ∀ c ∈ start.getLast?, isBlank c = false) (rest : List Char) :
    trimEnd (start ++ rest) = start ++ trimEnd rest := by
  induction start with
  | nil => rfl
  | cons c start ih =>
    rw [List.cons_append, trimEnd]
    cases start with
    | nil =>
      have hc : isBlank c = false := h c rfl
      rw [List.nil_append]
      split
      · next hrest =>
        rw [hrest, if_neg (Bool.eq_false_iff.mp hc)]
        rfl
      · rfl
    | cons d start =>
      rw [ih h, List.cons_append]
      rfl

/-- Nothing is trimmed away at the start and inside of what starts and ends without a blank. -/
theorem trim_append_of_not_isBlank {start : List Char} (hne : start ≠ [])
    (hhead : ∀ c ∈ start.head?, isBlank c = false)
    (hlast : ∀ c ∈ start.getLast?, isBlank c = false) (rest : List Char) :
    trim (start ++ rest) = start ++ trimEnd rest := by
  obtain ⟨c, others, rfl⟩ := List.exists_cons_of_ne_nil hne
  have hc : isBlank c = false := hhead c rfl
  rw [trim, List.cons_append, List.dropWhile_cons_of_neg (Bool.eq_false_iff.mp hc),
    ← List.cons_append, trimEnd_append_of_not_isBlank hlast]

theorem trim_append (text : List Char) (h : ∀ c ∈ blanks, isBlank c = true) :
    trim (text ++ blanks) = trim text := by
  unfold trim
  rw [List.dropWhile_append]
  split
  · next hempty =>
    rw [List.isEmpty_iff.mp hempty, List.dropWhile_eq_nil_iff.mpr h]
  · exact trimEnd_append _ h

theorem trim_blanks_append (text : List Char) (h : ∀ c ∈ blanks, isBlank c = true) :
    trim (blanks ++ text) = trim text := by
  unfold trim
  rw [List.dropWhile_append, List.dropWhile_eq_nil_iff.mpr h]
  rfl

theorem not_isBlank_of_head?_trim {c : Char} (h : c ∈ (trim text).head?) : isBlank c = false := by
  obtain ⟨rest, hrest⟩ := prefix_trimEnd (text.dropWhile isBlank)
  have hhead : (text.dropWhile isBlank).head? = some c := by
    rw [← hrest, List.head?_append]
    exact congrArg (·.or rest.head?) h
  have hnot := List.head?_dropWhile_not isBlank text
  rw [hhead] at hnot
  exact hnot

theorem not_isBlank_of_getLast?_trimEnd {c : Char} (h : c ∈ (trimEnd text).getLast?) :
    isBlank c = false := by
  induction text with
  | nil => cases h
  | cons d text ih =>
    rw [trimEnd] at h
    split at h
    · split at h
      · cases h
      · next hd =>
        cases h
        exact Bool.eq_false_iff.mpr hd
    · next hne =>
      rw [List.getLast?_cons_of_ne_nil hne] at h
      exact ih h

theorem trim_trim (text : List Char) : trim (trim text) = trim text := by
  by_cases hne : trim text = []
  · rw [hne]
    rfl
  · have h := trim_append_of_not_isBlank hne (fun _ => not_isBlank_of_head?_trim)
      (fun _ => not_isBlank_of_getLast?_trimEnd) []
    rwa [List.append_nil, trimEnd, List.append_nil] at h

end

/-! ## Words -/

theorem hasWord_iff {word text : List Char} : hasWord word text = true ↔ word <:+: text := by
  induction text with
  | nil => simp [hasWord]
  | cons c text ih => simp [hasWord, ih, List.infix_cons_iff]

/-- A word does not reach beyond a character that it does not have. -/
theorem isPrefixOf_append_cons {word : List Char} {c : Char} (hc : c ∉ word)
    (text rest : List Char) : word.isPrefixOf (text ++ c :: rest) = word.isPrefixOf text := by
  induction word generalizing text with
  | nil => simp
  | cons d word ih =>
    rw [List.mem_cons, not_or] at hc
    cases text with
    | nil => simp [List.isPrefixOf, Ne.symm hc.1]
    | cons e text => simp [List.isPrefixOf, ih hc.2]

theorem hasWord_append_cons {word : List Char} {c : Char} (hne : word ≠ []) (hc : c ∉ word)
    (text rest : List Char) :
    hasWord word (text ++ c :: rest) = (hasWord word text || hasWord word rest) := by
  obtain ⟨first, others, rfl⟩ := List.exists_cons_of_ne_nil hne
  induction text with
  | nil =>
    have hstart : (first :: others).isPrefixOf (c :: rest) = false :=
      isPrefixOf_append_cons hc [] rest
    rw [List.nil_append, hasWord, hasWord, hstart]
    rfl
  | cons d text ih =>
    rw [List.cons_append, hasWord, hasWord, ← List.cons_append, isPrefixOf_append_cons hc, ih,
      Bool.or_assoc]

/-- A word without the separator stands in one of the pieces that are joined. -/
theorem exists_infix_of_infix_join {separator : Char} {word : List Char} (hne : word ≠ [])
    (hword : separator ∉ word) {pieces : List (List Char)} (h : word <:+: join [separator] pieces) :
    ∃ piece ∈ pieces, word <:+: piece := by
  induction pieces with
  | nil => exact absurd (List.infix_nil.mp h) hne
  | cons piece pieces ih =>
    by_cases hlast : pieces = []
    · subst hlast
      exact ⟨piece, List.mem_cons_self, by simpa [join] using h⟩
    · rw [join_cons_of_ne_nil hlast, ← hasWord_iff, hasWord_append_cons hne hword,
        Bool.or_eq_true, hasWord_iff, hasWord_iff] at h
      rcases h with hhere | hlater
      · exact ⟨piece, List.mem_cons_self, hhere⟩
      · obtain ⟨other, hother, hwithin⟩ := ih hlater
        exact ⟨other, List.mem_cons_of_mem _ hother, hwithin⟩

theorem prefix_before (word text : List Char) : before word text <+: text := by
  induction text with
  | nil => exact List.prefix_rfl
  | cons c text ih =>
    rw [before]
    split
    · exact List.nil_prefix
    · exact (List.prefix_cons_inj c).mpr ih

theorem before_append_of_not_mem {c : Char} {mark start : List Char} (hc : c ∉ start)
    (rest : List Char) : before (c :: mark) (start ++ rest) = start ++ before (c :: mark) rest := by
  induction start with
  | nil => rfl
  | cons d start ih =>
    rw [List.mem_cons, not_or] at hc
    rw [List.cons_append, before, ih hc.2, if_neg]
    · rfl
    · simp [List.isPrefixOf, hc.1]

theorem before_of_not_hasWord {word text : List Char} (h : hasWord word text = false) :
    before word text = text := by
  induction text with
  | nil => rfl
  | cons c text ih =>
    obtain ⟨hstart, hrest⟩ := Bool.or_eq_false_iff.mp h
    rw [before, hstart, if_neg Bool.false_ne_true, ih hrest]

theorem toUpper_append (text rest : List Char) :
    toUpper (text ++ rest) = toUpper text ++ toUpper rest := List.flatMap_append

/-! ## Labels -/

theorem startsWithLabel_iff {label text : List Char} :
    startsWithLabel label text = true ↔
      ∃ found rest, text = found ++ rest ∧ found.map Char.toUpper = label := by
  unfold startsWithLabel
  rw [List.isPrefixOf_iff_prefix]
  constructor
  · intro h
    have hlength : ((text.take label.length).map Char.toUpper).length ≤ label.length := by
      rw [List.length_map, List.length_take]
      exact Nat.min_le_left _ _
    refine ⟨text.take label.length, text.drop label.length, (List.take_append_drop _ _).symm, ?_⟩
    exact (h.eq_of_length_le hlength).symm
  · rintro ⟨found, rest, rfl, rfl⟩
    simp

theorem toUpper_eq_self {c : Char} (h : c.toNat < 0x61 ∨ 0x7A < c.toNat) : c.toUpper = c := by
  unfold Char.toUpper
  rw [dif_neg]
  simp only [UInt32.le_iff_toNat_le]
  change ¬(0x61 ≤ c.toNat ∧ c.toNat ≤ 0x7A)
  omega

theorem toUpper_of_isBlank {c : Char} (h : isBlank c = true) : c.toUpper = c := by
  refine toUpper_eq_self ?_
  simp only [isBlank, Bool.or_eq_true, Bool.and_eq_true, decide_eq_true_eq, beq_iff_eq] at h
  omega

theorem startsWithLabel_cons_cons (d c : Char) (label text : List Char) :
    startsWithLabel (d :: label) (c :: text)
      = (d == c.toUpper && startsWithLabel label text) := rfl

/-- A label without blanks does not reach beyond a blank. -/
theorem startsWithLabel_append_blank {label : List Char} (hlabel : ∀ d ∈ label, isBlank d = false)
    (text : List Char) {c : Char} (hc : isBlank c = true) (rest : List Char) :
    startsWithLabel label (text ++ c :: rest) = startsWithLabel label text := by
  induction label generalizing text with
  | nil => rfl
  | cons d label ih =>
    obtain ⟨hd, hlabel⟩ := List.forall_mem_cons.mp hlabel
    cases text with
    | nil =>
      have hne : d ≠ c := fun h => Bool.false_ne_true (hd.symm.trans (h ▸ hc))
      rw [List.nil_append, startsWithLabel_cons_cons, toUpper_of_isBlank hc,
        beq_false_of_ne hne]
      rfl
    | cons e text =>
      rw [List.cons_append, startsWithLabel_cons_cons, startsWithLabel_cons_cons, ih hlabel]

/-- A label is there in upper case if the text is all in upper case. -/
theorem hasWord_toUpper_of_startsWithLabel {label text : List Char}
    (hlabel : ∀ d ∈ label, d.toNat < 0x80) (h : startsWithLabel label text = true) :
    hasWord label (toUpper text) = true := by
  obtain ⟨found, rest, rfl, rfl⟩ := startsWithLabel_iff.mp h
  have hfound : toUpper found = found.map Char.toUpper := by
    rw [List.map_eq_flatMap]
    refine List.flatMap_congr fun c hc => ?_
    have hupper : c.toUpper.toNat < 0x80 := hlabel _ (List.mem_map_of_mem hc)
    unfold Case.upper
    refine if_pos ?_
    by_contra hlarge
    rw [toUpper_eq_self (by omega)] at hupper
    exact hlarge hupper
  rw [toUpper_append, hfound, hasWord_iff]
  exact (List.prefix_append _ _).isInfix

end LeadSheet.Text
