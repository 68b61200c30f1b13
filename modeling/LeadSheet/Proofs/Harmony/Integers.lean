import LeadSheet.Harmony.Chord
import LeadSheet.Proofs.Number.Exact
import Mathlib.Data.List.Induction

/-!
# Integer pitches

Notes, chords and drums sound at integer pitches as soon as all that pitches are made from are
integers: the pitches of notes, the octaves of chords, and the semitones, intervals and drum keys of
the vocabulary. An integer pitch within the range of MIDI is a data byte, so that a file keeps it.
-/

namespace LeadSheet

/-- A fraction that is an integer. -/
def IsInteger (x : Rat) : Prop := ∃ n : Int, x = n

theorem isInteger_iff {x : Rat} : IsInteger x ↔ x.num = x := by
  constructor
  · rintro ⟨n, rfl⟩
    rw [Rat.num_intCast]
  · exact fun h => ⟨x.num, h.symm⟩

instance (x : Rat) : Decidable (IsInteger x) := decidable_of_iff _ isInteger_iff.symm

namespace IsInteger

theorem natCast (n : Nat) : IsInteger n := ⟨n, by push_cast; rfl⟩

/-- Numerals of the scalar interface are integers. -/
theorem numeral (n : Nat) : IsInteger (@OfNat.ofNat Rat n (Scalar.instOfNat n)) := by
  rw [Scalar.numeral_rat]
  exact natCast n

theorem add {x y : Rat} : IsInteger x → IsInteger y → IsInteger (x + y)
  | ⟨m, hm⟩, ⟨n, hn⟩ => ⟨m + n, by rw [hm, hn, Int.cast_add]⟩

theorem sub {x y : Rat} : IsInteger x → IsInteger y → IsInteger (x - y)
  | ⟨m, hm⟩, ⟨n, hn⟩ => ⟨m - n, by rw [hm, hn, Int.cast_sub]⟩

theorem mul {x y : Rat} : IsInteger x → IsInteger y → IsInteger (x * y)
  | ⟨m, hm⟩, ⟨n, hn⟩ => ⟨m * n, by rw [hm, hn, Int.cast_mul]⟩

theorem max {x y : Rat} (hx : IsInteger x) (hy : IsInteger y) : IsInteger (max x y) := by
  rcases max_choice x y with h | h
  · rwa [h]
  · rwa [h]

end IsInteger

/-! ## The range of pitches -/

theorem clampPitch_rat (x : Rat) :
    clampPitch x = if x < 0 then 0 else if 127 < x then 127 else x := by
  unfold clampPitch Scalar.clamp
  simp only [Scalar.numeral_rat]
  rfl

theorem clampPitch_nonneg (x : Rat) : 0 ≤ clampPitch x := by
  rw [clampPitch_rat]
  split_ifs with h h' <;> linarith

theorem clampPitch_le (x : Rat) : clampPitch x ≤ 127 := by
  rw [clampPitch_rat]
  split_ifs with h h' <;> linarith

/-- A pitch in range stays as it is. -/
theorem clampPitch_of_mem {x : Rat} (h : 0 ≤ x) (h' : x ≤ 127) : clampPitch x = x := by
  rw [clampPitch_rat, if_neg (not_lt.mpr h), if_neg (not_lt.mpr h')]

theorem clampPitch_clampPitch (x : Rat) : clampPitch (clampPitch x) = clampPitch x :=
  clampPitch_of_mem (clampPitch_nonneg x) (clampPitch_le x)

theorem IsInteger.clampPitch {x : Rat} (h : IsInteger x) : IsInteger (clampPitch x) := by
  rw [clampPitch_rat]
  split_ifs
  · exact ⟨0, by norm_num⟩
  · exact ⟨127, by norm_num⟩
  · exact h

/-- An integer pitch in range is a number below 128. -/
theorem IsInteger.clampPitch_eq {x : Rat} (h : IsInteger x) :
    ∃ n : Nat, n < 128 ∧ LeadSheet.clampPitch x = n := by
  obtain ⟨m, hm⟩ := h.clampPitch
  have hlow := clampPitch_nonneg x
  have hhigh := clampPitch_le x
  rw [hm] at hlow hhigh
  have hm0 : 0 ≤ m := by exact_mod_cast hlow
  have hm127 : m ≤ 127 := by exact_mod_cast hhigh
  refine ⟨m.toNat, by omega, ?_⟩
  rw [hm, ← Int.cast_natCast, Int.toNat_of_nonneg hm0]

/-! ## Pitches of a vocabulary -/

/-- The semitones, intervals and drum keys are integers. -/
structure Vocabulary.IntegerPitched (v : Vocabulary Rat) : Prop where
  semitones : ∀ entry ∈ v.semitones, IsInteger entry.2
  intervals : ∀ entry ∈ v.qualities, ∀ interval ∈ entry.2, IsInteger interval
  drumKeys : ∀ entry ∈ v.drums, IsInteger entry.2
  defaultDrumKey : IsInteger v.defaultDrumKey

theorem mem_of_lookup {κ β : Type} [BEq κ] [LawfulBEq κ] {entries : List (κ × β)} {k : κ} {x : β}
    (h : entries.lookup k = some x) : (k, x) ∈ entries := by
  obtain ⟨before, after, rfl, _⟩ := List.lookup_eq_some_iff.mp h
  exact List.mem_append_right _ (List.mem_cons_self ..)

namespace Vocabulary.IntegerPitched

variable {v : Vocabulary Rat}

theorem drumKey (h : v.IntegerPitched) (drum : String) : IsInteger (v.drumKey drum) := by
  unfold Vocabulary.drumKey
  match hlookup : v.drums.lookup (Text.lowerString drum) with
  | none => exact h.defaultDrumKey
  | some key => exact h.drumKeys _ (mem_of_lookup hlookup)

theorem semitoneOf (h : v.IntegerPitched) (name : String) : IsInteger (semitoneOf v name) := by
  unfold LeadSheet.semitoneOf
  match hlookup : v.semitones.lookup (String.ofList (spellPitchClass name.toList)) with
  | none => exact .numeral 0
  | some semitones => exact h.semitones _ (mem_of_lookup hlookup)

theorem pitchOf (h : v.IntegerPitched) (name : String) {octave : Rat} (hoctave : IsInteger octave) :
    IsInteger (pitchOf v name octave) := by
  unfold LeadSheet.pitchOf
  exact (h.semitoneOf name).add ((hoctave.add (.numeral 1)).mul (.numeral 12))

theorem intervalsOf (h : v.IntegerPitched) (quality : String) :
    ∀ interval ∈ intervalsOf v quality, IsInteger interval := by
  unfold LeadSheet.intervalsOf
  dsimp only
  split
  · rename_i intervals hlookup
    exact h.intervals _ (mem_of_lookup hlookup)
  · intro interval hmem
    obtain ⟨n, _, rfl⟩ := List.mem_map.mp hmem
    rw [Scalar.ofNat_rat]
    exact .natCast n

end Vocabulary.IntegerPitched

/-! ## Pitches of a chord -/

/-- A number more, unless it stood before. -/
def keepNew {α : Type} [Scalar α] (kept : List α) (x : α) : List α :=
  if kept.any (Scalar.same x) then kept else kept ++ [x]

theorem distinct_concat {α : Type} [Scalar α] (numbers : List α) (x : α) :
    distinct (numbers ++ [x]) = keepNew (distinct numbers) x := by
  unfold distinct
  rw [List.foldl_append]
  rfl

theorem mem_distinct {α : Type} [Scalar α] {x : α} {numbers : List α}
    (h : x ∈ distinct numbers) : x ∈ numbers := by
  induction numbers using List.reverseRecOn with
  | nil => exact h
  | append_singleton numbers y ih =>
    rw [distinct_concat, keepNew] at h
    split at h
    · exact List.mem_append_left _ (ih h)
    · rcases List.mem_append.mp h with h | h
      · exact List.mem_append_left _ (ih h)
      · exact List.mem_append_right _ h

theorem mem_chordPitches {v : Vocabulary Rat} {root quality : String} {octave x : Rat}
    (h : x ∈ chordPitches v root quality octave) :
    ∃ interval ∈ intervalsOf v quality, clampPitch (pitchOf v root octave + interval) = x :=
  List.mem_map.mp (mem_distinct h)

/-- The pitches of a chord are in range already. -/
theorem Chord.clampPitch_of_mem {v : Vocabulary Rat} {c : Chord Rat} {x : Rat}
    (h : x ∈ c.pitches v) : clampPitch x = x := by
  obtain ⟨interval, _, rfl⟩ := mem_chordPitches h
  exact clampPitch_clampPitch _

theorem Chord.isInteger_of_mem {v : Vocabulary Rat} {c : Chord Rat} {x : Rat}
    (hv : v.IntegerPitched) (hoctave : IsInteger c.octave) (h : x ∈ c.pitches v) :
    IsInteger x := by
  obtain ⟨interval, hinterval, rfl⟩ := mem_chordPitches h
  exact ((hv.pitchOf c.root hoctave).add (hv.intervalsOf c.quality interval hinterval)).clampPitch

end LeadSheet
