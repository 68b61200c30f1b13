import LeadSheet.Harmony.Chord
import LeadSheet.Number.Binary64
import LeadSheet.Proofs.Harmony.Integers
import LeadSheet.Proofs.Text.Scan

/-!
# Semitones and intervals of the standard vocabulary

The tables of pitch classes and of qualities hold natural numbers, whatever type of number these are
kept in (`semitoneOf_standard`, `intervalsOf_standard`). A name that is no pitch class is taken for
a C, and every quality has intervals, whatever it is: those of the table, or those of a familiar
word that it contains, or else those of the major triad. They always rise from the root, and no
further than a ninth (`rising_intervalNumbers`).

The familiar words are tried in a fixed order, and some of them occur within others. So `m7` is
found in every spelling with `dim7`, and `min` in `diminished`, before anything diminished is looked
for. Of all qualities with `dim7` only `dim7` itself has the intervals of the diminished seventh,
and it has them from the table (`intervalsOf_diminished`).
-/

namespace LeadSheet

/-! ## The tables as natural numbers -/

/-- The pitch classes of the standard vocabulary. -/
def numberedSemitones : List (String × Nat) :=
  [("C", 0), ("C#", 1), ("Db", 1), ("D", 2), ("D#", 3), ("Eb", 3), ("E", 4), ("F", 5), ("F#", 6),
    ("Gb", 6), ("G", 7), ("G#", 8), ("Ab", 8), ("A", 9), ("A#", 10), ("Bb", 10), ("B", 11)]

/-- The qualities of the standard vocabulary. -/
def numberedQualities : List (String × List Nat) :=
  [("", [0, 4, 7]), ("m", [0, 3, 7]), ("7", [0, 4, 7, 10]), ("maj7", [0, 4, 7, 11]),
    ("m7", [0, 3, 7, 10]), ("dim", [0, 3, 6]), ("dim7", [0, 3, 6, 9]), ("aug", [0, 4, 8]),
    ("sus2", [0, 2, 7]), ("sus4", [0, 5, 7]), ("add9", [0, 4, 7, 14]), ("9", [0, 4, 7, 10, 14])]

/-- The semitones of a name, spelled as in the table. -/
def semitoneNumber (spelled : List Char) : Nat :=
  (numberedSemitones.lookup (String.ofList spelled)).getD 0

/-- The intervals of a quality in lower case. -/
def intervalNumbers (lower : List Char) : List Nat :=
  (numberedQualities.lookup (String.ofList lower)).getD (familiarIntervals lower)

theorem lookup_map_snd {κ β γ : Type} [BEq κ] (f : β → γ) (k : κ) (entries : List (κ × β)) :
    (entries.map fun entry => (entry.1, f entry.2)).lookup k = (entries.lookup k).map f := by
  induction entries with
  | nil => rfl
  | cons entry rest ih =>
    rw [List.map_cons, List.lookup_cons, List.lookup_cons, ih]
    cases k == entry.1 <;> rfl

section

variable {α : Type} [Scalar α]

theorem semitones_standard_eq : (Vocabulary.standard : Vocabulary α).semitones
    = numberedSemitones.map fun entry => (entry.1, Scalar.ofNat entry.2) :=
  rfl

theorem qualities_standard_eq : (Vocabulary.standard : Vocabulary α).qualities
    = numberedQualities.map fun entry => (entry.1, entry.2.map Scalar.ofNat) :=
  rfl

theorem semitoneOf_standard (name : String) :
    semitoneOf (Vocabulary.standard : Vocabulary α) name
      = Scalar.ofNat (semitoneNumber (spellPitchClass name.toList)) := by
  unfold semitoneOf semitoneNumber
  rw [semitones_standard_eq, lookup_map_snd]
  cases numberedSemitones.lookup (String.ofList (spellPitchClass name.toList)) <;> rfl

theorem intervalsOf_standard (quality : String) :
    intervalsOf (Vocabulary.standard : Vocabulary α) quality
      = (intervalNumbers (Text.toLower quality.toList)).map Scalar.ofNat := by
  unfold intervalsOf intervalNumbers
  dsimp only
  rw [qualities_standard_eq, lookup_map_snd]
  cases numberedQualities.lookup (String.ofList (Text.toLower quality.toList)) <;> rfl

end

/-! ## Intervals of all qualities -/

/-- Intervals that start with the root and rise, to a ninth at most. -/
def Rising (intervals : List Nat) : Prop :=
  intervals.head? = some 0 ∧ intervals.Pairwise (· < ·) ∧ ∀ interval ∈ intervals, interval ≤ 14

instance (intervals : List Nat) : Decidable (Rising intervals) :=
  inferInstanceAs (Decidable (_ ∧ _))

theorem rising_numberedQualities : ∀ entry ∈ numberedQualities, Rising entry.2 := by
  decide

theorem rising_familiarIntervals (lower : List Char) : Rising (familiarIntervals lower) := by
  unfold familiarIntervals
  dsimp only
  split_ifs <;> decide

/-- **The intervals of every quality rise from the root.** -/
theorem rising_intervalNumbers (lower : List Char) : Rising (intervalNumbers lower) := by
  unfold intervalNumbers
  match hlookup : numberedQualities.lookup (String.ofList lower) with
  | some intervals => exact rising_numberedQualities _ (mem_of_lookup hlookup)
  | none => exact rising_familiarIntervals lower

/-! ## Diminished spellings -/

section

variable {lower : List Char}

open Text (hasWord)

/-- A quality that is not in the table is recognised by its words. -/
theorem intervalNumbers_of_not_mem (h : ∀ entry ∈ numberedQualities, lower ≠ entry.1.toList) :
    intervalNumbers lower = familiarIntervals lower := by
  have hnone : numberedQualities.lookup (String.ofList lower) = none := by
    rw [List.lookup_eq_none_iff]
    intro entry hentry
    refine bne_iff_ne.mpr fun heq => h entry hentry ?_
    rw [← heq, String.toList_ofList]
  rw [intervalNumbers, hnone, Option.getD_none]

theorem hasWord_of_hasWord {word part : List Char} (hpart : hasWord part word = true)
    (hword : hasWord word lower = true) : hasWord part lower = true :=
  Text.hasWord_iff.mpr ((Text.hasWord_iff.mp hpart).trans (Text.hasWord_iff.mp hword))

/-- A word with a part that does not occur does not occur either. -/
theorem not_hasWord {word part : List Char} (hpart : hasWord part word = true)
    (hnot : ¬hasWord part lower = true) : ¬hasWord word lower = true :=
  fun hword => hnot (hasWord_of_hasWord hpart hword)

theorem not_hasWord_seven (h : '7' ∉ lower) : ¬hasWord "7".toList lower = true := fun hseven =>
  h ((Text.hasWord_iff.mp hseven).subset (List.mem_singleton.mpr rfl))

/-- Behind `dim7` the minor seventh is found first, in the `m7` at its end. -/
theorem intervalNumbers_of_dim7 (hdim : hasWord "dim7".toList lower = true)
    (hmaj : ¬hasWord "maj".toList lower = true) (hother : lower ≠ "dim7".toList) :
    intervalNumbers lower = [0, 3, 7, 10] := by
  have htable : ∀ entry ∈ numberedQualities,
      hasWord "dim7".toList entry.1.toList = true → entry.1.toList = "dim7".toList := by
    decide
  rw [intervalNumbers_of_not_mem]
  · have hmajor : ¬hasWord "maj7".toList lower = true := not_hasWord (by decide) hmaj
    have hminor : hasWord "m7".toList lower = true := hasWord_of_hasWord (by decide) hdim
    unfold familiarIntervals
    dsimp only
    rw [if_neg hmajor, if_neg hmaj, if_pos (Bool.or_eq_true_iff.mpr (.inl hminor))]
  · intro entry hentry heq
    exact hother (heq.trans (htable entry hentry (heq ▸ hdim)))

/-- What starts with `dim` is a diminished triad unless one of three other words is found first. -/
theorem intervalNumbers_of_dim (hdim : "dim".toList <+: lower) (hseven : '7' ∉ lower)
    (hmaj : ¬hasWord "maj".toList lower = true) :
    intervalNumbers lower =
      if hasWord "min".toList lower then [0, 3, 7]
      else if hasWord "sus4".toList lower then [0, 5, 7]
      else if hasWord "sus2".toList lower then [0, 2, 7]
      else [0, 3, 6] := by
  by_cases hself : lower = "dim".toList
  · subst hself
    decide
  · have htable : ∀ entry ∈ numberedQualities, "dim".toList <+: entry.1.toList →
        '7' ∉ entry.1.toList → entry.1.toList = "dim".toList := by
      decide
    have hnot := not_hasWord_seven hseven
    have hmajor : ¬hasWord "maj7".toList lower = true := not_hasWord (by decide) hmaj
    have hm7 : ¬hasWord "m7".toList lower = true := not_hasWord (by decide) hnot
    have hmin7 : ¬hasWord "min7".toList lower = true := not_hasWord (by decide) hnot
    have hdim7 : ¬hasWord "dim7".toList lower = true := not_hasWord (by decide) hnot
    have hword : hasWord "dim".toList lower = true := Text.hasWord_iff.mpr hdim.isInfix
    -- the quality starts with a `d`, so that it is no minor triad
    have hstart : "m".toList.isPrefixOf lower = false := by
      obtain ⟨rest, rfl⟩ := hdim
      rfl
    rw [intervalNumbers_of_not_mem]
    · unfold familiarIntervals
      simp only [hmajor, hmaj, hm7, hmin7, hstart, hdim7, hword, Bool.false_or, Bool.false_eq_true,
        if_false, if_true]
    · intro entry hentry heq
      exact hself (heq.trans (htable entry hentry (heq ▸ hdim) (heq ▸ hseven)))

end

/-- **Diminished spellings that do not stay diminished.** With the standard vocabulary a quality
that contains `dim7` in any case, and not `maj`, has the intervals of a minor seventh, unless it is
`dim7` and nothing else. One that starts with `dim` and contains neither `maj` nor a seven has the
intervals of a minor triad if it contains `min`, and of a suspended one if it contains `sus4` or
else `sus2`; only without these it has those of a diminished triad. -/
theorem intervalsOf_diminished {α : Type} [Scalar α] (quality : String) :
    let lower := Text.toLower quality.toList
    let has (word : String) : Bool := Text.hasWord word.toList lower
    let intervals : List α := intervalsOf Vocabulary.standard quality
    (has "dim7" → ¬has "maj" →
        intervals = if lower = "dim7".toList then [0, 3, 6, 9] else [0, 3, 7, 10]) ∧
      ("dim".toList <+: lower → '7' ∉ lower → ¬has "maj" →
        intervals = if has "min" then [0, 3, 7] else if has "sus4" then [0, 5, 7]
          else if has "sus2" then [0, 2, 7] else [0, 3, 6]) := by
  intro lower has intervals
  have hintervals : intervals = (intervalNumbers lower).map Scalar.ofNat :=
    intervalsOf_standard quality
  rw [hintervals]
  constructor
  · intro hdim hmaj
    by_cases hself : lower = "dim7".toList
    · rw [if_pos hself, hself]
      rfl
    · rw [if_neg hself, intervalNumbers_of_dim7 hdim hmaj hself]
      rfl
  · intro hdim hseven hmaj
    rw [intervalNumbers_of_dim hdim hseven hmaj]
    split_ifs <;> rfl

/-- A diminished seventh with a flat ninth, and a diminished triad that is written out. -/
theorem intervalsOf_diminished_flatNinth :
    intervalsOf (Vocabulary.standard : Vocabulary Float) "dim7b9" = [0, 3, 7, 10] ∧
      intervalsOf (Vocabulary.standard : Vocabulary Float) "Diminished" = [0, 3, 7] := by
  obtain ⟨hseventh, -⟩ := intervalsOf_diminished (α := Float) "dim7b9"
  obtain ⟨-, htriad⟩ := intervalsOf_diminished (α := Float) "Diminished"
  exact ⟨hseventh (by decide) (by decide), htriad (by decide) (by decide) (by decide)⟩

/-- Neither of them has the intervals that it spells. -/
theorem not_intervalsOf_diminished :
    (¬∀ quality : String, Text.hasWord "dim7".toList (Text.toLower quality.toList) = true →
        ¬Text.hasWord "maj".toList (Text.toLower quality.toList) = true →
        intervalsOf (Vocabulary.standard : Vocabulary Float) quality = [0, 3, 6, 9]) ∧
      ¬∀ quality : String, "dim".toList <+: Text.toLower quality.toList →
        '7' ∉ Text.toLower quality.toList →
        ¬Text.hasWord "maj".toList (Text.toLower quality.toList) = true →
        intervalsOf (Vocabulary.standard : Vocabulary Float) quality = [0, 3, 6] := by
  constructor
  · intro hall
    have hseventh := hall "dim7b9" (by decide) (by decide)
    exact absurd hseventh (by decide +kernel)
  · intro hall
    have htriad := hall "Diminished" (by decide) (by decide) (by decide)
    exact absurd htriad (by decide +kernel)

end LeadSheet
