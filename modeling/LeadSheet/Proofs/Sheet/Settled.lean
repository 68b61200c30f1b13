import LeadSheet.Proofs.Sheet.Repair
import Mathlib.Data.List.DropRight

/-!
# Repair is done at once

Repair only puts line feeds and spaces in, and it leaves nothing to repair: in a repaired text every
keyword and every marker that stands behind blanks has a line feed among them, so that a second
repair changes nothing (`repair_repair`).

The second pass of repair must not undo what the first one has reached, nor give it new work. What
a pass puts in stands in front of a label and among blanks; no label has a blank in it, so behind
the pass the same labels start at the same places (`isLabel_append_breakBefore`), with the same
blanks before them or with more.
-/

namespace LeadSheet.Sheet

/-! ## Blanks that are put in -/

/-- A text, and the same text with line feeds and spaces put in. -/
inductive Spaced : List Char → List Char → Prop where
  | nil : Spaced [] []
  | keep (c : Char) {text spaced : List Char} :
      Spaced text spaced → Spaced (c :: text) (c :: spaced)
  | insert {c : Char} {text spaced : List Char} (hc : c = '\n' ∨ c = ' ') :
      Spaced text spaced → Spaced text (c :: spaced)

namespace Spaced

variable {text spaced : List Char}

protected theorem refl : ∀ text, Spaced text text
  | [] => .nil
  | c :: rest => .keep c (Spaced.refl rest)

theorem insertAll (h : Spaced text spaced) {inserted : List Char}
    (hinserted : ∀ c ∈ inserted, c = '\n' ∨ c = ' ') : Spaced text (inserted ++ spaced) := by
  induction inserted with
  | nil => exact h
  | cons c rest ih =>
    obtain ⟨hc, hrest⟩ := List.forall_mem_cons.mp hinserted
    exact .insert hc (ih hrest)

protected theorem trans {more : List Char} (hfirst : Spaced text spaced)
    (hthen : Spaced spaced more) : Spaced text more := by
  induction hthen generalizing text with
  | nil => exact hfirst
  | keep c _ ih =>
    cases hfirst with
    | keep _ hfirst => exact .keep c (ih hfirst)
    | insert hc hfirst => exact .insert hc (ih hfirst)
  | insert hc _ ih => exact .insert hc (ih hfirst)

/-- A word without line feeds and spaces is not put in. -/
theorem prefix_of_unspaced {word : List Char} (hword : ∀ c ∈ word, c ≠ '\n' ∧ c ≠ ' ')
    (h : Spaced text spaced) (hbegin : word <+: spaced) : word <+: text := by
  induction h generalizing word with
  | nil => exact hbegin
  | keep c _ ih =>
    cases word with
    | nil => exact List.nil_prefix
    | cons d word =>
      obtain ⟨rfl, hrest⟩ := List.cons_prefix_cons.mp hbegin
      exact List.cons_prefix_cons.mpr ⟨rfl, ih (List.forall_mem_cons.mp hword).2 hrest⟩
  | insert hc _ ih =>
    cases word with
    | nil => exact List.nil_prefix
    | cons d word =>
      obtain ⟨rfl, -⟩ := List.cons_prefix_cons.mp hbegin
      obtain ⟨hfeed, hspace⟩ := hword d List.mem_cons_self
      exact absurd hc (not_or.mpr ⟨hfeed, hspace⟩)

theorem infix_of_unspaced {word : List Char} (hword : ∀ c ∈ word, c ≠ '\n' ∧ c ≠ ' ')
    (h : Spaced text spaced) (hwithin : word <:+: spaced) : word <:+: text := by
  induction h with
  | nil => exact hwithin
  | keep c hrest ih =>
    rcases List.infix_cons_iff.mp hwithin with hhere | hlater
    · exact (prefix_of_unspaced hword (.keep c hrest) hhere).isInfix
    · exact List.infix_cons (ih hlater)
  | insert hc hrest ih =>
    rcases List.infix_cons_iff.mp hwithin with hhere | hlater
    · exact (prefix_of_unspaced hword (.insert hc hrest) hhere).isInfix
    · exact ih hlater

/-- What is not blank stays as it is. -/
theorem filter_eq (h : Spaced text spaced) :
    spaced.filter (fun c => !Text.isBlank c) = text.filter fun c => !Text.isBlank c := by
  induction h with
  | nil => rfl
  | keep c _ ih => rw [List.filter_cons, List.filter_cons, ih]
  | insert hc _ ih =>
    rcases hc with rfl | rfl
    · exact (List.filter_cons_of_neg (by decide)).trans ih
    · exact (List.filter_cons_of_neg (by decide)).trans ih

end Spaced

/-! ## Labels behind line breaks -/

/-- No label stands behind blanks without a line break. -/
def Settled (isLabel : List Char → Bool) (gap : Gap) (text : List Char) : Prop :=
  ∀ front rest, text = front ++ rest → isLabel rest = true → gap.across front ≠ .unbroken

/-- What stands right before a place is told by the blanks there. -/
theorem across_none (front : List Char) :
    (Gap.none.across front = .broken → '\n' ∈ front.rtakeWhile Text.isBlank) ∧
      (Gap.none.across front = .none → front.rtakeWhile Text.isBlank = []) := by
  induction front using List.reverseRecOn with
  | nil => exact ⟨nofun, fun _ => rfl⟩
  | append_singleton front c ih =>
    obtain ⟨hbroken, -⟩ := ih
    have hacross : Gap.none.across (front ++ [c]) = (Gap.none.across front).behind c :=
      List.foldl_concat ..
    rw [hacross, List.rtakeWhile_concat]
    by_cases hc : Text.isBlank c = true
    · rw [if_pos hc]
      unfold Gap.behind
      rw [hc, if_neg (by decide)]
      split
      · next hbreak =>
        refine ⟨fun _ => ?_, nofun⟩
        rcases hbreak with rfl | hbefore
        · exact List.mem_append_right _ (List.mem_singleton_self _)
        · exact List.mem_append_left _ (hbroken hbefore)
      · exact ⟨nofun, nofun⟩
    · rw [if_neg hc, Gap.behind_of_not_isBlank _ (by simpa using hc)]
      exact ⟨nofun, fun _ => rfl⟩

section

variable {isLabel : List Char → Bool} {gap : Gap} {text : List Char}

theorem settled_cons {c : Char} : Settled isLabel gap (c :: text) ↔
    (isLabel (c :: text) = true → gap ≠ .unbroken) ∧ Settled isLabel (gap.behind c) text := by
  constructor
  · intro h
    exact ⟨h [] (c :: text) rfl, fun front rest htext => h (c :: front) rest (by rw [htext]; rfl)⟩
  · rintro ⟨hhere, hbehind⟩ front rest htext hlabel
    cases front with
    | nil =>
      obtain rfl : c :: text = rest := htext
      exact hhere hlabel
    | cons d front =>
      obtain ⟨rfl, hrest⟩ := List.cons.inj htext
      exact hbehind front rest hrest hlabel

/-- No label starts among blanks. -/
theorem settled_blanks_append (hword : IsWord isLabel) {blanks : List Char}
    (hblank : ∀ c ∈ blanks, Text.isBlank c = true) :
    Settled isLabel gap (blanks ++ text) ↔ Settled isLabel (gap.across blanks) text := by
  induction blanks generalizing gap with
  | nil => rfl
  | cons c rest ih =>
    obtain ⟨hc, hrest⟩ := List.forall_mem_cons.mp hblank
    have hnot : ¬isLabel (c :: (rest ++ text)) = true := by
      simp [hword.cons_blank hc]
    rw [List.cons_append, settled_cons, ih hrest]
    exact and_iff_right fun hlabel => absurd hlabel hnot

end

/-! ## One pass of repair -/

section

variable {isLabel : List Char → Bool} {inserted : List Char}

theorem spaced_breakBefore (hinserted : ∀ c ∈ inserted, c = '\n' ∨ c = ' ') (gap : Gap)
    (text : List Char) : Spaced text (breakBefore isLabel inserted gap text) := by
  induction text generalizing gap with
  | nil => exact .nil
  | cons c rest ih =>
    rw [breakBefore]
    split
    · exact (Spaced.keep c (ih _)).insertAll hinserted
    · exact .keep c (ih _)

/-- A pass finds nothing to do where every label stands behind a line break, or behind no blank. -/
theorem breakBefore_of_settled {gap : Gap} {text : List Char} (h : Settled isLabel gap text) :
    breakBefore isLabel inserted gap text = text := by
  induction text generalizing gap with
  | nil => rfl
  | cons c rest ih =>
    obtain ⟨hhere, hbehind⟩ := settled_cons.mp h
    have hnot : ¬(gap = .unbroken && isLabel (c :: rest)) = true := by
      intro hinserts
      obtain ⟨hgap, hlabel⟩ := (Bool.and_eq_true _ _).mp hinserts
      exact hhere hlabel (of_decide_eq_true hgap)
    rw [breakBefore]
    rw [if_neg hnot, ih hbehind]

variable {other : List Char → Bool} (hother : IsWord other)

include hother

/-- Behind a pass the same labels start at the same places, as long as it puts nothing in right
there. -/
theorem isLabel_append_breakBefore {gap : Gap} (hgap : gap ≠ .unbroken) (start text : List Char) :
    other (start ++ breakBefore isLabel inserted gap text) = other (start ++ text) := by
  induction text generalizing gap start with
  | nil => rfl
  | cons c rest ih =>
    have hhere : breakBefore isLabel inserted gap (c :: rest)
        = c :: breakBefore isLabel inserted (gap.behind c) rest := by
      rw [breakBefore]
      simp [hgap]
    rw [hhere]
    by_cases hc : Text.isBlank c = true
    · -- a blank ends whatever label there is
      rw [hother.append_blank start _ hc, hother.append_blank start _ hc]
    · have hnone : gap.behind c = .none := Gap.behind_of_not_isBlank gap (by simpa using hc)
      have hrest := @ih (gap.behind c) (by rw [hnone]; decide) (start ++ [c])
      simpa using hrest

theorem isLabel_cons_breakBefore (gap : Gap) (c : Char) (text : List Char) :
    other (c :: breakBefore isLabel inserted (gap.behind c) text) = other (c :: text) := by
  by_cases hgap : gap.behind c = .unbroken
  · have hc := Gap.isBlank_of_behind hgap
    rw [hother.cons_blank hc, hother.cons_blank hc]
  · exact isLabel_append_breakBefore hother hgap [c] text

/-- **A pass settles labels** if it looks for all those that are not settled yet. -/
theorem settled_breakBefore (hword : IsWord isLabel)
    (hblank : ∀ c ∈ inserted, Text.isBlank c = true)
    (hbroken : Gap.unbroken.across inserted = .broken) {gap : Gap} {text : List Char}
    (h : ∀ front rest, text = front ++ rest → other rest = true →
      gap.across front = .unbroken → isLabel rest = true) :
    Settled other gap (breakBefore isLabel inserted gap text) := by
  induction text generalizing gap with
  | nil =>
    intro front rest htext hlabel
    obtain ⟨-, rfl⟩ := List.append_eq_nil_iff.mp htext.symm
    rw [hother.nil] at hlabel
    cases hlabel
  | cons c text ih =>
    have hbehind := @ih (gap.behind c) fun front rest htext =>
      h (c :: front) rest (by rw [htext]; rfl)
    rw [breakBefore]
    split
    · next hinserts =>
      obtain ⟨hgap, hlabel⟩ := (Bool.and_eq_true _ _).mp hinserts
      obtain rfl : gap = .unbroken := of_decide_eq_true hgap
      -- behind what was put in there stands a label, which is no blank and so takes no blanks on
      have hc : Text.isBlank c = false := by
        by_contra hblank
        rw [hword.cons_blank (by simpa using hblank)] at hlabel
        cases hlabel
      rw [Gap.behind_of_not_isBlank _ hc] at hbehind ⊢
      rw [settled_blanks_append hother hblank, hbroken, settled_cons,
        Gap.behind_of_not_isBlank _ hc]
      exact ⟨fun _ => by decide, hbehind⟩
    · next hinserts =>
      refine settled_cons.mpr ⟨fun hlabel hgap => ?_, hbehind⟩
      rw [isLabel_cons_breakBefore hother] at hlabel
      exact hinserts (by simpa [hgap] using h [] (c :: text) rfl hlabel hgap)

end

/-! ## Repair -/

/-- What the two passes make of a text: every keyword and every marker stands behind a line break,
if it stands behind a blank. -/
theorem settled_passes (text : List Char) :
    let broken := breakBefore startsKeyword ['\n'] .none text
    Settled startsKeyword .none (breakBefore startsMarker ['\n', ' ', ' '] .none broken) ∧
      Settled startsMarker .none (breakBefore startsMarker ['\n', ' ', ' '] .none broken) := by
  intro broken
  have hfeed : ∀ c ∈ ['\n'], Text.isBlank c = true := by simp [Text.isBlank]
  have hindent : ∀ c ∈ ['\n', ' ', ' '], Text.isBlank c = true := by simp [Text.isBlank]
  have hkeywords : Settled startsKeyword .none broken :=
    settled_breakBefore isWord_startsKeyword isWord_startsKeyword hfeed rfl
      fun _ _ _ hlabel _ => hlabel
  constructor
  · -- the second pass finds the keywords settled, and leaves them so
    refine settled_breakBefore isWord_startsKeyword isWord_startsMarker hindent rfl ?_
    intro front rest htext hlabel hgap
    exact absurd hgap (hkeywords front rest htext hlabel)
  · exact settled_breakBefore isWord_startsMarker isWord_startsMarker hindent rfl
      fun _ _ _ hlabel _ => hlabel

theorem spaced_repair (text : List Char) : Spaced text (repair text) := by
  unfold repair
  split
  · exact Spaced.refl text
  · exact (spaced_breakBefore (by simp) _ _).trans (spaced_breakBefore (by simp) _ _)

/-- Whatever a text is, it is left alone or both passes go through it. -/
theorem repair_cases (text : List Char) :
    repair text = text ∧ (enoughLineBreaks ≤ Text.occurrences '\n' text ∨
        mentionsSection text = false) ∨
      repair text = breakBefore startsMarker ['\n', ' ', ' '] .none
        (breakBefore startsKeyword ['\n'] .none text) := by
  unfold repair
  split
  · next hleft => exact .inl ⟨rfl, by simpa using hleft⟩
  · exact .inr rfl

/-- **Repair is done at once, and only puts blanks in.** Repairing a repaired text changes nothing.
A repaired text is the text with line feeds and spaces put in, so that all else stays in order. And
where a text with few line breaks has a section, every keyword and every marker of the repaired text
that stands behind a blank has a line feed among the blanks right before it. -/
theorem repair_repair (text : List Char) :
    repair (repair text) = repair text ∧ Spaced text (repair text) ∧
      (repair text).filter (fun c => !Text.isBlank c) = text.filter (fun c => !Text.isBlank c) ∧
      (Text.occurrences '\n' text < enoughLineBreaks → mentionsSection text = true →
        ∀ front rest, repair text = front ++ rest → startsLine rest = true →
          front.rtakeWhile Text.isBlank ≠ [] → '\n' ∈ front.rtakeWhile Text.isBlank) := by
  have hspaced := spaced_repair text
  obtain ⟨hkeywords, hmarkers⟩ := settled_passes text
  refine ⟨?_, hspaced, hspaced.filter_eq, ?_⟩
  · rcases repair_cases text with ⟨hleft, -⟩ | hpasses
    · rw [hleft, hleft]
    · rw [hpasses]
      -- the second repair leaves the text alone, or goes through it and finds nothing to do
      rcases repair_cases (breakBefore startsMarker ['\n', ' ', ' '] .none
        (breakBefore startsKeyword ['\n'] .none text)) with ⟨hleft, -⟩ | hagain
      · exact hleft
      · rw [hagain, breakBefore_of_settled hkeywords, breakBefore_of_settled hmarkers]
  · intro hfew hsection front rest hfront hlabel hblank
    rcases repair_cases text with ⟨-, henough | hnone⟩ | hpasses
    · omega
    · rw [hnone] at hsection
      cases hsection
    · rw [hpasses] at hfront
      have hgap : Gap.none.across front ≠ .unbroken := by
        rcases (Bool.or_eq_true _ _).mp hlabel with hkeyword | hmarker
        · exact hkeywords front rest hfront hkeyword
        · exact hmarkers front rest hfront hmarker
      obtain ⟨hbroken, hnothing⟩ := across_none front
      cases hacross : Gap.none.across front with
      | none => exact absurd (hnothing hacross) hblank
      | unbroken => exact absurd hacross hgap
      | broken => exact hbroken hacross

/-- A sheet run together, with a tab and a no-break space among its blanks, and one marker behind a
line feed. -/
def tabbed : List Char :=
  "SONG: X\tKEY: C section: A\u00a0[1 bars]\n PIANO: C4(q) \u00a0Bass: | C2(w)".toList

theorem repair_repair_tabbed :
    let front :=
      "SONG: X\t\nKEY: C \nsection: A\u00a0[1 bars]\n PIANO: C4(q) \u00a0\n  ".toList
    let rest := "Bass: | C2(w)".toList
    Text.occurrences '\n' tabbed < enoughLineBreaks ∧ mentionsSection tabbed = true ∧
      repair tabbed = front ++ rest ∧ startsLine rest = true ∧
      front.rtakeWhile Text.isBlank ≠ [] ∧
      repair (repair tabbed) = repair tabbed ∧ Spaced tabbed (repair tabbed) ∧
      '\n' ∈ front.rtakeWhile Text.isBlank := by
  intro front rest
  have hfew : Text.occurrences '\n' tabbed < enoughLineBreaks := by decide +kernel
  have hsection : mentionsSection tabbed = true := by decide +kernel
  have hfront : repair tabbed = front ++ rest := by decide +kernel
  have hlabel : startsLine rest = true := by decide +kernel
  have hblank : front.rtakeWhile Text.isBlank ≠ [] := by decide +kernel
  obtain ⟨hagain, hspaced, -, hbreaks⟩ := repair_repair tabbed
  exact ⟨hfew, hsection, hfront, hlabel, hblank, hagain, hspaced,
    hbreaks hfew hsection front rest hfront hlabel hblank⟩

end LeadSheet.Sheet
