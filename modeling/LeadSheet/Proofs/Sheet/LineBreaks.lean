import LeadSheet.Proofs.Sheet.Repair

/-!
# A sheet does not mind its line ends

Lines end in a line feed, with or without a carriage return before it. A carriage return there is a
blank at the end of a line, and blanks at the end of a line are trimmed away when a text is cleaned.
Before that, though, the text goes through repair, which looks at blanks and puts line feeds of its
own among them, without carriage returns. So what is followed through repair is a relation that
allows for both: `CarriesReturns text returned` says that `returned` is `text` with carriage returns
before some of its line feeds. No label reaches beyond a blank, so each pass of repair keeps the
relation (`CarriesReturns.repair`), and cleaning makes the two texts equal
(`CarriesReturns.clean_eq`). Carriage returns that stand elsewhere are in both texts.
-/

namespace LeadSheet.Sheet

/-- The second text is the first one with carriage returns before some of its line feeds. -/
inductive CarriesReturns : List Char → List Char → Prop where
  | nil : CarriesReturns [] []
  | cons (c : Char) {text returned : List Char} :
      CarriesReturns text returned → CarriesReturns (c :: text) (c :: returned)
  | lineFeed {text returned : List Char} :
      CarriesReturns text returned → CarriesReturns ('\n' :: text) ('\r' :: '\n' :: returned)

/-- A line, with a carriage return at its end or without. -/
def LineReturned (line returned : List Char) : Prop := returned = line ∨ returned = line ++ ['\r']

theorem isWord_isPrefixOf {word : List Char} (hne : word ≠ [])
    (hword : word.any Text.isBlank = false) : IsWord word.isPrefixOf where
  nil := by
    obtain ⟨d, rest, rfl⟩ := List.exists_cons_of_ne_nil hne
    rfl
  append_blank text c rest hc := by
    have hmem : c ∉ word := fun h => List.any_eq_false.mp hword c h hc
    exact Text.isPrefixOf_append_cons hmem text rest

namespace CarriesReturns

variable {text returned : List Char}

protected theorem refl : ∀ text, CarriesReturns text text
  | [] => nil
  | c :: text => (CarriesReturns.refl text).cons c

theorem append {rest restReturned : List Char} (h : CarriesReturns text returned)
    (hrest : CarriesReturns rest restReturned) :
    CarriesReturns (text ++ rest) (returned ++ restReturned) := by
  induction h with
  | nil => exact hrest
  | cons c _ ih => exact ih.cons c
  | lineFeed _ ih => exact ih.lineFeed

theorem occurrences_eq (h : CarriesReturns text returned) :
    Text.occurrences '\n' returned = Text.occurrences '\n' text := by
  unfold Text.occurrences
  induction h with
  | nil => rfl
  | cons c _ ih => rw [List.count_cons, List.count_cons, ih]
  | lineFeed _ ih =>
    rw [List.count_cons_of_ne (by decide), List.count_cons_self, List.count_cons_self, ih]

/-! ## Words -/

/-- Where the texts first differ, there is a line feed in one and a carriage return in the other. -/
theorem eq_or_exists (h : CarriesReturns text returned) :
    returned = text ∨ ∃ line rest restReturned,
      text = line ++ '\n' :: rest ∧ returned = line ++ '\r' :: restReturned := by
  induction h with
  | nil => exact .inl rfl
  | cons c _ ih =>
    rcases ih with rfl | ⟨line, rest, restReturned, rfl, rfl⟩
    · exact .inl rfl
    · exact .inr ⟨c :: line, rest, restReturned, rfl, rfl⟩
  | lineFeed _ _ => exact .inr ⟨[], _, _, rfl, rfl⟩

theorem isLabel_eq {isLabel : List Char → Bool} (hword : IsWord isLabel)
    (h : CarriesReturns text returned) : isLabel returned = isLabel text := by
  rcases h.eq_or_exists with rfl | ⟨line, rest, restReturned, rfl, rfl⟩
  · rfl
  · rw [hword.append_blank line restReturned (by decide), hword.append_blank line rest (by decide)]

theorem hasWord_eq {word : List Char} (hne : word ≠ []) (hword : word.any Text.isBlank = false)
    (h : CarriesReturns text returned) : Text.hasWord word returned = Text.hasWord word text := by
  have hlabel := isWord_isPrefixOf hne hword
  induction h with
  | nil => rfl
  | cons c h ih => rw [Text.hasWord, Text.hasWord, (h.cons c).isLabel_eq hlabel, ih]
  | lineFeed _ ih =>
    rw [Text.hasWord, Text.hasWord, Text.hasWord, hlabel.cons_blank (by decide),
      hlabel.cons_blank (by decide), hlabel.cons_blank (by decide), ih]
    rfl

theorem toUpper (h : CarriesReturns text returned) :
    CarriesReturns (Text.toUpper text) (Text.toUpper returned) := by
  induction h with
  | nil => exact nil
  | cons c _ ih => exact (CarriesReturns.refl (Text.Case.upper c)).append ih
  | lineFeed _ ih => exact ih.lineFeed

theorem mentionsSection_eq (h : CarriesReturns text returned) :
    mentionsSection returned = mentionsSection text :=
  h.toUpper.hasWord_eq (by decide) (by decide)

/-! ## Repair and cleaning -/

theorem breakBefore {isLabel : List Char → Bool} (hword : IsWord isLabel) (inserted : List Char)
    (gap : Gap) (h : CarriesReturns text returned) :
    CarriesReturns (breakBefore isLabel inserted gap text)
      (breakBefore isLabel inserted gap returned) := by
  induction h generalizing gap with
  | nil => exact nil
  | cons c h ih =>
    rw [Sheet.breakBefore, Sheet.breakBefore, (h.cons c).isLabel_eq hword]
    split
    · exact (CarriesReturns.refl inserted).append ((ih _).cons c)
    · exact (ih _).cons c
  | lineFeed _ ih =>
    -- no label starts with a blank, and behind the line feed both passes are past a line break
    have hgap : (gap.behind '\r').behind '\n' = gap.behind '\n' := by
      simp [Gap.behind, Text.isBlank]
    rw [Sheet.breakBefore, Sheet.breakBefore, Sheet.breakBefore, hword.cons_blank (by decide),
      hword.cons_blank (by decide), hword.cons_blank (by decide), hgap]
    simp only [Bool.and_false, Bool.false_eq_true, if_false]
    exact (ih _).lineFeed

theorem repair (h : CarriesReturns text returned) :
    CarriesReturns (repair text) (repair returned) := by
  unfold Sheet.repair
  rw [h.occurrences_eq, h.mentionsSection_eq]
  split
  · exact h
  · exact (h.breakBefore isWord_startsKeyword _ _).breakBefore isWord_startsMarker _ _

/-- Line by line, a carriage return at the end is all that is new. -/
theorem split (h : CarriesReturns text returned) :
    List.Forall₂ LineReturned (Text.split '\n' text) (Text.split '\n' returned) := by
  induction h with
  | nil => exact .cons (.inl rfl) .nil
  | @cons c text returned _ ih =>
    by_cases hc : c = '\n'
    · subst hc
      rw [Text.split_cons_self, Text.split_cons_self]
      exact .cons (.inl rfl) ih
    · obtain ⟨line, lines, hline, htext⟩ := Text.exists_split_cons hc text
      obtain ⟨line', lines', hline', hreturned⟩ := Text.exists_split_cons hc returned
      rw [hline, hline'] at ih
      rw [htext, hreturned]
      obtain ⟨hfirst, hrest⟩ := List.forall₂_cons.mp ih
      refine .cons ?_ hrest
      rcases hfirst with rfl | rfl
      · exact .inl rfl
      · exact .inr rfl
  | @lineFeed text returned _ ih =>
    have hreturned : Text.split '\n' ('\r' :: '\n' :: returned)
        = ['\r'] :: Text.split '\n' returned := Text.split_append '\n' ['\r'] returned
    rw [hreturned, Text.split_cons_self]
    exact .cons (.inr rfl) ih

theorem filterMap_cleanLine?_eq {lines linesReturned : List (List Char)}
    (h : List.Forall₂ LineReturned lines linesReturned) :
    linesReturned.filterMap cleanLine? = lines.filterMap cleanLine? := by
  induction h with
  | nil => rfl
  | @cons line returned _ _ hline _ ih =>
    have htrim : Text.trim returned = Text.trim line := by
      rcases hline with rfl | rfl
      · rfl
      · exact Text.trim_append line fun c hc => List.mem_singleton.mp hc ▸ rfl
    rw [List.filterMap_cons, List.filterMap_cons, cleanLine?_congr htrim, ih]

theorem clean_eq (h : CarriesReturns text returned) : clean returned = clean text := by
  unfold Sheet.clean
  rw [filterMap_cleanLine?_eq h.split]

end CarriesReturns

/-! ## Whole sheets -/

variable {α : Type} [Scalar α]

/-- Line ends may be of both kinds in one text. -/
theorem read_carriesReturns (v : Vocabulary α) {text returned : List Char}
    (h : CarriesReturns text returned) :
    read v (String.ofList returned) = read v (String.ofList text) :=
  read_congr v h.repair.clean_eq h.repair.occurrences_eq

/-- The text with a carriage return before every line feed. -/
def withReturns (text : String) : String :=
  String.ofList (text.toList.flatMap fun c => if c = '\n' then ['\r', '\n'] else [c])

theorem carriesReturns_flatMap (text : List Char) :
    CarriesReturns text (text.flatMap fun c => if c = '\n' then ['\r', '\n'] else [c]) := by
  induction text with
  | nil => exact .nil
  | cons c text ih =>
    by_cases hc : c = '\n'
    · subst hc
      exact ih.lineFeed
    · rw [List.flatMap_cons, if_neg hc]
      exact ih.cons c

/-- **Line ends do not matter.** With a carriage return before every line feed, every text is read
as it is without them: the same score or error, the same warnings, and the same progress notes. -/
theorem read_withReturns (v : Vocabulary α) (text : String) :
    read v (withReturns text) = read v text := by
  have h := read_carriesReturns v (carriesReturns_flatMap text.toList)
  rw [String.ofList_toList] at h
  exact h

end LeadSheet.Sheet
