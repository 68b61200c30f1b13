import LeadSheet.Proofs.Text.Scan

/-!
# Letter case, ASCII and beyond

On ASCII characters the full case mappings are those of single letters, and the two ways undo each
other: a word in upper case has the lower case of the word. Beyond ASCII a character may have ASCII
letters in its upper case, as the long s has an `S`. That is the only way in which a word can stand
in the upper case of a text that does not have it in some case (`exists_startsWithLabel`).
-/

namespace LeadSheet.Text

/-! ## ASCII -/

/-- Whatever holds of the first 128 characters holds of a character among them. -/
theorem ascii_induction {p : Char → Prop} (h : ∀ n < 0x80, p (Char.ofNat n)) {c : Char}
    (hc : c.toNat < 0x80) : p c := by
  rw [← Char.ofNat_toNat c]
  exact h c.toNat hc

theorem ascii_toLower {c : Char} (hc : c.toNat < 0x80) : c.toLower.toNat < 0x80 :=
  ascii_induction (p := fun c => c.toLower.toNat < 0x80) (by decide) hc

theorem toLower_toUpper {c : Char} (hc : c.toNat < 0x80) : c.toUpper.toLower = c.toLower :=
  ascii_induction (p := fun c => c.toUpper.toLower = c.toLower) (by decide) hc

theorem toUpper_toLower {c : Char} (hc : c.toNat < 0x80) : c.toLower.toUpper = c.toUpper :=
  ascii_induction (p := fun c => c.toLower.toUpper = c.toUpper) (by decide) hc

theorem toLower_toLower {c : Char} (hc : c.toNat < 0x80) : c.toLower.toLower = c.toLower :=
  ascii_induction (p := fun c => c.toLower.toLower = c.toLower) (by decide) hc

theorem ascii_of_isWordChar {c : Char} (hc : isWordChar c = true) : c.toNat < 0x80 := by
  have hupTo : ∀ last : Char, last.toNat < 0x80 → c.val ≤ last.val → c.toNat < 0x80 :=
    fun last hlast hle => Nat.lt_of_le_of_lt (UInt32.le_iff_toNat_le.mp hle) hlast
  rcases Bool.or_eq_true_iff.mp hc with halphanum | hunderscore
  · rcases Bool.or_eq_true_iff.mp halphanum with halpha | hdigit
    · rcases Bool.or_eq_true_iff.mp halpha with hupper | hlower
      · exact hupTo 'Z' (by decide) (of_decide_eq_true hupper).2
      · exact hupTo 'z' (by decide) (of_decide_eq_true (Bool.and_eq_true_iff.mp hlower).2)
    · exact hupTo '9' (by decide) (of_decide_eq_true (Bool.and_eq_true_iff.mp hdigit).2)
  · rw [eq_of_beq hunderscore]
    decide

section

variable {text : List Char} (h : ∀ c ∈ text, c.toNat < 0x80)

include h

theorem toUpper_of_ascii : toUpper text = text.map Char.toUpper := by
  unfold toUpper
  rw [List.map_eq_flatMap]
  exact List.flatMap_congr fun c hc => if_pos (h c hc)

theorem toLower_of_ascii : toLower text = text.map Char.toLower := by
  have hsigma : text.contains 'Σ' = false := by
    rw [List.contains_eq_mem, decide_eq_false_iff_not]
    intro hmem
    exact absurd (h 'Σ' hmem) (by decide)
  unfold toLower
  rw [hsigma, if_neg Bool.false_ne_true, List.map_eq_flatMap]
  exact List.flatMap_congr fun c hc => if_pos (h c hc)

end

/-! ## Beyond ASCII -/

/-- No character is without an upper case. -/
theorem upper_ne_nil (c : Char) : Case.upper c ≠ [] := by
  have hlong : ∀ entry ∈ Case.upperLong, entry.2 ≠ [] := by decide
  unfold Case.upper Case.mapped
  split
  · exact List.cons_ne_nil _ _
  · split
    · next several hseveral =>
      intro hnil
      obtain ⟨before, behind, heq, -⟩ := List.lookup_eq_some_iff.mp hseveral
      have hmem : (c.toNat, several) ∈ Case.upperLong :=
        heq ▸ List.mem_append_right _ List.mem_cons_self
      exact hlong _ hmem (List.map_eq_nil_iff.mp hnil)
    · exact List.cons_ne_nil _ _

/-- The upper case of a character takes no part in a word: it is that of an ASCII character, or has
none of the word's letters. -/
def Plain (word : List Char) (c : Char) : Prop :=
  c.toNat < 0x80 ∨ ∀ d ∈ Case.upper c, d ∉ word

variable {word text : List Char}

/-- A label in the upper case of a text is there in the text. -/
theorem startsWithLabel_of_toUpper {label : List Char} (hlabel : label ⊆ word)
    (htext : ∀ c ∈ text, Plain word c) (h : label <+: toUpper text) :
    startsWithLabel label text = true := by
  induction text generalizing label with
  | nil =>
    rw [show toUpper [] = [] from rfl, List.prefix_nil] at h
    subst h
    rfl
  | cons c text ih =>
    obtain ⟨hc, htext⟩ := List.forall_mem_cons.mp htext
    cases label with
    | nil => rfl
    | cons d label =>
      obtain ⟨hd, hletters⟩ := List.cons_subset.mp hlabel
      change d :: label <+: Case.upper c ++ toUpper text at h
      rcases hc with hascii | hother
      · rw [Case.upper, if_pos hascii] at h
        obtain ⟨rfl, hbehind⟩ := List.cons_prefix_cons.mp h
        rw [startsWithLabel_cons_cons, beq_self_eq_true, Bool.true_and]
        exact ih hletters htext hbehind
      · -- the upper case of the character is not empty, so the word would start inside it
        obtain ⟨e, rest, hupper⟩ := List.exists_cons_of_ne_nil (upper_ne_nil c)
        rw [hupper] at h
        obtain ⟨rfl, -⟩ := List.cons_prefix_cons.mp h
        exact absurd hd (hother d (hupper ▸ List.mem_cons_self))

/-- A word does not start inside a text that has none of its letters. -/
theorem infix_of_infix_append {others rest : List Char} (hne : word ≠ [])
    (hothers : ∀ d ∈ others, d ∉ word) (h : word <:+: others ++ rest) : word <:+: rest := by
  induction others with
  | nil => exact h
  | cons d others ih =>
    obtain ⟨hd, hothers⟩ := List.forall_mem_cons.mp hothers
    rcases List.infix_cons_iff.mp h with hprefix | hinfix
    · obtain ⟨e, letters, rfl⟩ := List.exists_cons_of_ne_nil hne
      obtain ⟨rfl, -⟩ := List.cons_prefix_cons.mp hprefix
      exact absurd List.mem_cons_self hd
    · exact ih hothers hinfix

/-- A word that the upper case of a text has is in the text in some case, if no character beyond
ASCII takes part in it. -/
theorem exists_startsWithLabel (hne : word ≠ []) (htext : ∀ c ∈ text, Plain word c)
    (h : hasWord word (toUpper text) = true) :
    ∃ rest, rest <:+ text ∧ startsWithLabel word rest = true := by
  rw [hasWord_iff] at h
  induction text with
  | nil => exact absurd (List.infix_nil.mp h) hne
  | cons c text ih =>
    obtain ⟨hc, hrest⟩ := List.forall_mem_cons.mp htext
    by_cases hprefix : word <+: toUpper (c :: text)
    · exact ⟨c :: text, List.suffix_rfl,
        startsWithLabel_of_toUpper (List.Subset.refl word) htext hprefix⟩
    · have hinfix : word <:+: toUpper text := by
        change word <:+: Case.upper c ++ toUpper text at h
        rcases hc with hascii | hother
        · rw [Case.upper, if_pos hascii] at h
          refine (List.infix_cons_iff.mp h).resolve_left fun hstart => hprefix ?_
          change word <+: Case.upper c ++ toUpper text
          rwa [Case.upper, if_pos hascii]
        · exact infix_of_infix_append hne hother h
      obtain ⟨rest, hsuffix, hlabel⟩ := ih hrest hinfix
      exact ⟨rest, hsuffix.trans (List.suffix_cons c text), hlabel⟩

end LeadSheet.Text
