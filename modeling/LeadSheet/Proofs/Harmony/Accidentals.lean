import LeadSheet.Proofs.Harmony.Symbols
import LeadSheet.Proofs.Harmony.Tones

/-!
# Sharps and flats

An accidental may stand behind any letter, and is to move a note or a chord by a semitone. The table
of pitch classes has ten of the fourteen names that there are. It lacks those that lead to the pitch
of another letter, `E#`, `B#`, `Cb` and `Fb`; and a name that it lacks is taken for a C, in whatever
octave it stands. All other names move by a semitone as they should (`accidentals_move`).

How a chord moves can be told as long as none of its tones is brought into the range of MIDI
(`Unclamped`). Then the octave is small, if it is an integer, and no double is rounded; exact
fractions are not rounded in any octave.
-/

namespace LeadSheet

/-! ## Names with an accidental -/

/-- The names that the table of pitch classes lacks. -/
def unlistedNames : List String := ["E#", "B#", "Cb", "Fb"]

/-- The name of a letter with an accidental, in either case of the letter, is not in the table. -/
def Unlisted (letter accidental : Char) : Prop :=
  String.ofList [letter.toUpper, accidental] ∈ unlistedNames

instance (letter accidental : Char) : Decidable (Unlisted letter accidental) :=
  inferInstanceAs (Decidable (_ ∈ _))

/-- How many semitones an accidental moves a note by. -/
def direction (accidental : Char) : Int := if accidental = '#' then 1 else -1

section

variable {letter accidental : Char} (hletter : isNoteLetter letter = true)
  (haccidental : isAccidental accidental = true)

include hletter haccidental

/-- A name with an accidental is taken for a C if the table lacks it. The others are a semitone away
from their letter. -/
theorem semitoneNumber_altered :
    (semitoneNumber (spellPitchClass [letter, accidental]) : Int)
      = if Unlisted letter accidental then 0
        else semitoneNumber (spellPitchClass [letter]) + direction accidental := by
  have hascii := Text.ascii_of_isWordChar (isWordChar_of_isNoteLetter hletter)
  revert hletter
  refine Text.ascii_induction (p := fun letter => isNoteLetter letter = true →
    (semitoneNumber (spellPitchClass [letter, accidental]) : Int)
      = if Unlisted letter accidental then 0
        else semitoneNumber (spellPitchClass [letter]) + direction accidental) ?_ hascii
  simp only [isAccidental, Bool.or_eq_true, beq_iff_eq] at haccidental
  rcases haccidental with rfl | rfl
  · decide +kernel
  · decide +kernel

theorem semitoneNumber_of_unlisted (h : Unlisted letter accidental) :
    semitoneNumber (spellPitchClass [letter, accidental]) = 0 := by
  have haltered := semitoneNumber_altered hletter haccidental
  rw [if_pos h] at haltered
  exact_mod_cast haltered

theorem semitoneNumber_of_listed (h : ¬Unlisted letter accidental) :
    (semitoneNumber (spellPitchClass [letter, accidental]) : Int)
      = semitoneNumber (spellPitchClass [letter]) + direction accidental :=
  (semitoneNumber_altered hletter haccidental).trans (if_neg h)

end

/-! ## Moving a chord -/

section

variable {α : Type} [Scalar α]

/-- A pitch moved by an accidental. -/
def moved (accidental : Char) (pitch : α) : α :=
  if accidental = '#' then pitch + (1 : α) else pitch - (1 : α)

theorem moved_rat (accidental : Char) (x : Rat) :
    moved accidental x = x + direction accidental := by
  unfold moved direction
  split_ifs
  · rw [Scalar.numeral_rat]
    push_cast
    rfl
  · rw [Scalar.numeral_rat]
    push_cast
    ring

/-- No tone of a chord has to be brought into the range of MIDI. -/
def Unclamped (v : Vocabulary α) (root quality : String) (octave : α) : Prop :=
  ∀ interval ∈ intervalsOf v quality,
    clampPitch (pitchOf v root octave + interval) = pitchOf v root octave + interval

/-- A chord moves as its tones do. -/
theorem chordPitches_map {v : Vocabulary α} {root root' quality : String} {octave : α} {f : α → α}
    (hroot : Unclamped v root quality octave) (hroot' : Unclamped v root' quality octave)
    (hmove : ∀ interval ∈ intervalsOf v quality,
      pitchOf v root' octave + interval = f (pitchOf v root octave + interval))
    (hsame : ∀ x ∈ chordTones v root quality octave, ∀ y ∈ chordTones v root quality octave,
      Scalar.same (f x) (f y) = Scalar.same x y) :
    chordPitches v root' quality octave = (chordPitches v root quality octave).map f := by
  have htones : chordTones v root' quality octave = (chordTones v root quality octave).map f := by
    unfold chordTones
    rw [List.map_map]
    refine List.map_congr_left fun interval hmem => ?_
    rw [Function.comp_apply, hroot' interval hmem, hroot interval hmem, hmove interval hmem]
  change distinct (chordTones v root' quality octave) = _
  rw [htones, distinct_map hsame]
  rfl

/-! ## Small integers -/

variable [IntegerSums α] {x : α} {n : Int}

theorem integer?_moved (hx : Scalar.integer? x = some n) (hsmall : |n| < 2 ^ 52)
    (accidental : Char) :
    Scalar.integer? (moved accidental x) = some (n + direction accidental) := by
  have hone : Scalar.integer? (1 : α) = some 1 := IntegerSums.integer?_ofNat (by decide)
  rw [abs_lt] at hsmall
  unfold moved direction
  by_cases hsharp : accidental = '#'
  · rw [if_pos hsharp, if_pos hsharp]
    exact IntegerSums.integer?_add hx hone (by rw [abs_lt]; omega)
  · rw [if_neg hsharp, if_neg hsharp]
    exact ExactIntegers.integer?_sub hx hone (by rw [abs_lt]; omega)

/-- Integers that are not too great are told apart after a move as they were before. -/
theorem same_moved {y : α} {m : Int} (hx : Scalar.integer? x = some n)
    (hy : Scalar.integer? y = some m) (hsmall : |n| < 2 ^ 52) (hsmall' : |m| < 2 ^ 52)
    (accidental : Char) :
    Scalar.same (moved accidental x) (moved accidental y) = Scalar.same x y := by
  rw [Bool.eq_iff_iff, same_iff_of_integer? hx hy,
    same_iff_of_integer? (integer?_moved hx hsmall accidental)
      (integer?_moved hy hsmall' accidental), add_left_inj]

theorem zero_add_moved (hx : 0 + x = x) (accidental : Char) :
    0 + moved accidental x = moved accidental x := by
  unfold moved
  by_cases hsharp : accidental = '#'
  · rw [if_pos hsharp]
    exact NeutralZero.zero_add_add _ hx
  · rw [if_neg hsharp]
    exact NeutralZero.zero_add_sub _ hx

theorem semitoneNumber_lt (spelled : List Char) : semitoneNumber spelled < 12 := by
  unfold semitoneNumber
  match hlookup : numberedSemitones.lookup (String.ofList spelled) with
  | none => decide
  | some k =>
    have hall : ∀ entry ∈ numberedSemitones, entry.2 < 12 := by decide
    exact hall _ (mem_of_lookup hlookup)

/-- The pitch of a name in an octave that is not too far away. -/
theorem integer?_pitchOf {octave : α} (hoctave : Scalar.integer? octave = some n)
    (hsmall : |n| < 2 ^ 40) (name : String) :
    Scalar.integer? (pitchOf (Vocabulary.standard : Vocabulary α) name octave)
      = some (semitoneNumber (spellPitchClass name.toList) + (n + 1) * 12) := by
  have hlt := semitoneNumber_lt (spellPitchClass name.toList)
  have hsemitones := IntegerSums.integer?_ofNat (α := α)
    (n := semitoneNumber (spellPitchClass name.toList)) (by omega)
  have hone : Scalar.integer? (1 : α) = some 1 := IntegerSums.integer?_ofNat (by decide)
  rw [abs_lt] at hsmall
  unfold pitchOf
  rw [semitoneOf_standard]
  have hnext := IntegerSums.integer?_add hoctave hone (by rw [abs_lt]; omega)
  have hoctaves := IntegerSums.integer?_mul_twelve hnext (by rw [abs_lt]; omega)
  exact IntegerSums.integer?_add hsemitones hoctaves (by rw [abs_lt]; omega)

/-- In a higher octave a name has no lower pitch. -/
theorem pitchOf_mono {v : Vocabulary α} (hv : v.IntegerTuned) (name : String) {octave higher : α}
    (hle : octave ≤ higher) :
    pitchOf v name octave ≤ pitchOf v name higher := by
  have hone : (Scalar.integer? (1 : α)).isSome = true := isSome_integer?_ofNat (n := 1) (by decide)
  have hsemitones := hv.semitoneOf name
  have hnext : octave + (1 : α) ≤ higher + (1 : α) := by
    rw [IntegerSums.add_comm octave, IntegerSums.add_comm higher]
    exact IntegerSums.add_le_add (whole_of_integer? hone).isNumber
      (.inl (Scalar.isFinite_of_integer? hone)) hle
  exact IntegerSums.add_le_add (whole_of_integer? hsemitones).isNumber
    (.inl (Scalar.isFinite_of_integer? hsemitones)) (IntegerSums.mul_twelve_le hnext)

/-- A pitch in the range of MIDI is in one of its octaves. -/
theorem octave_of_pitchOf {octave : α} (hoctave : Scalar.integer? octave = some n) {name : String}
    {k : Nat} (hk : k ≤ 127)
    (hpitch : pitchOf (Vocabulary.standard : Vocabulary α) name octave = Scalar.ofNat k) :
    |n| < 12 := by
  have hinteger : Scalar.integer? (pitchOf (Vocabulary.standard : Vocabulary α) name octave)
      = some (k : Int) := by
    rw [hpitch]
    exact IntegerSums.integer?_ofNat (by omega)
  have hlt := semitoneNumber_lt (spellPitchClass name.toList)
  rw [abs_lt]
  constructor
  · by_contra hlow
    -- an octave so low that no name reaches the range
    have hleast : Scalar.integer? ((0 : α) - Scalar.ofNat 12) = some ((0 : Int) - (12 : Nat)) :=
      ExactIntegers.integer?_sub ExactIntegers.integer?_zero
        (IntegerSums.integer?_ofNat (n := 12) (by decide)) (by decide)
    have hle := (ExactIntegers.le_iff hoctave hleast).mpr (by omega)
    have hpitches := pitchOf_mono integerTuned_standard name hle
    rw [ExactIntegers.le_iff hinteger (integer?_pitchOf hleast (by decide) name)] at hpitches
    omega
  · by_contra hhigh
    have hmost : Scalar.integer? (Scalar.ofNat 12 : α) = some ((12 : Nat) : Int) :=
      IntegerSums.integer?_ofNat (by decide)
    have hle := (ExactIntegers.le_iff hmost hoctave).mpr (by omega)
    have hpitches := pitchOf_mono integerTuned_standard name hle
    rw [ExactIntegers.le_iff (integer?_pitchOf hmost (by decide) name) hinteger] at hpitches
    omega

/-- If no tone has to be brought into range, the root has not, since it is one of them. -/
theorem octave_of_unclamped {root quality : String} {octave : α}
    (hoctave : Scalar.integer? octave = some n)
    (h : Unclamped (Vocabulary.standard : Vocabulary α) root quality octave) : |n| < 12 := by
  have htuned : (Vocabulary.standard : Vocabulary α).IntegerTuned := integerTuned_standard
  obtain ⟨hwhole, hplus⟩ := htuned.pitchOf root (Option.isSome_of_mem hoctave)
  obtain ⟨rest, hrest, -⟩ := exists_intervalsOf_standard (α := α) quality
  have hroot := h 0 (hrest ▸ List.mem_cons_self)
  rw [IntegerSums.add_comm, hplus] at hroot
  obtain ⟨k, hk, hclamped⟩ := exists_clampPitch hwhole hplus
  exact octave_of_pitchOf hoctave hk (hroot.symm.trans hclamped)

end

/-! ## Chords and tokens -/

section

variable {α : Type} [Scalar α]

/-- An accidental moves a chord of the standard vocabulary by a semitone, as long as no tone has to
be brought into range; but a chord on a name that the table lacks is one on C. -/
def MovesChord (letter accidental : Char) (quality : String) (octave : α) : Prop :=
  let root (name : List Char) := String.ofList name
  let pitches (name : List Char) := chordPitches Vocabulary.standard (root name) quality octave
  if Unlisted letter accidental then pitches [letter, accidental] = pitches ['C']
  else
    Unclamped Vocabulary.standard (root [letter]) quality octave →
      Unclamped Vocabulary.standard (root [letter, accidental]) quality octave →
        pitches [letter, accidental] = (pitches [letter]).map (moved accidental)

variable {letter accidental : Char} (hletter : isNoteLetter letter = true)
  (haccidental : isAccidental accidental = true)

include hletter haccidental

/-- Names that the table lacks have the pitch of a C, in any octave. -/
theorem pitchOf_of_unlisted (h : Unlisted letter accidental) (octave : α) :
    pitchOf (Vocabulary.standard : Vocabulary α) (String.ofList [letter, accidental]) octave
      = pitchOf Vocabulary.standard (String.ofList ['C']) octave := by
  unfold pitchOf
  rw [semitoneOf_standard, semitoneOf_standard, String.toList_ofList, String.toList_ofList,
    semitoneNumber_of_unlisted hletter haccidental h]
  rfl

theorem chordPitches_of_unlisted (h : Unlisted letter accidental) (quality : String) (octave : α) :
    chordPitches (Vocabulary.standard : Vocabulary α) (String.ofList [letter, accidental]) quality
        octave
      = chordPitches Vocabulary.standard (String.ofList ['C']) quality octave := by
  unfold chordPitches
  rw [pitchOf_of_unlisted hletter haccidental h]

/-- It is left to look at the names that the table has. -/
theorem movesChord_of_listed {quality : String} {octave : α}
    (h : ¬Unlisted letter accidental →
      Unclamped (Vocabulary.standard : Vocabulary α) (String.ofList [letter]) quality octave →
      Unclamped (Vocabulary.standard : Vocabulary α) (String.ofList [letter, accidental]) quality
        octave →
      chordPitches (Vocabulary.standard : Vocabulary α) (String.ofList [letter, accidental]) quality
          octave
        = (chordPitches Vocabulary.standard (String.ofList [letter]) quality octave).map
            (moved accidental)) :
    MovesChord letter accidental quality octave := by
  unfold MovesChord
  dsimp only
  split
  · next hunlisted => exact chordPitches_of_unlisted hletter haccidental hunlisted quality octave
  · next hlisted => exact h hlisted

section

variable [IntegerSums α] (h : ¬Unlisted letter accidental) {octave interval : α} {n j : Int}
  (hoctave : Scalar.integer? octave = some n) (hsmall : |n| < 2 ^ 40)

include h hoctave hsmall

/-- The other names are moved, and every tone above them, in octaves that are not too far away. -/
theorem tone_moved (hinterval : Scalar.integer? interval = some j) (hj : |j| < 2 ^ 40) :
    pitchOf (Vocabulary.standard : Vocabulary α) (String.ofList [letter, accidental]) octave
        + interval
      = moved accidental
          (pitchOf Vocabulary.standard (String.ofList [letter]) octave + interval) := by
  have htuned : (Vocabulary.standard : Vocabulary α).IntegerTuned := integerTuned_standard
  have hisSome : (Scalar.integer? octave).isSome = true := Option.isSome_of_mem hoctave
  obtain ⟨-, hplus⟩ := htuned.pitchOf (String.ofList [letter]) hisSome
  obtain ⟨-, hplus'⟩ := htuned.pitchOf (String.ofList [letter, accidental]) hisSome
  have hroot := integer?_pitchOf hoctave hsmall (String.ofList [letter])
  have hroot' := integer?_pitchOf hoctave hsmall (String.ofList [letter, accidental])
  rw [String.toList_ofList] at hroot hroot'
  rw [semitoneNumber_of_listed hletter haccidental h] at hroot'
  have hlt := semitoneNumber_lt (spellPitchClass [letter])
  have hdirection : direction accidental = 1 ∨ direction accidental = -1 := by
    unfold direction
    split_ifs <;> simp
  rw [abs_lt] at hsmall hj
  have htone := integer?_moved (IntegerSums.integer?_add hroot hinterval (by rw [abs_lt]; omega))
    (by rw [abs_lt]; omega) accidental
  have htone' := IntegerSums.integer?_add hroot' hinterval (by rw [abs_lt]; omega)
  rw [add_right_comm, add_right_comm _ _ (direction accidental)] at htone
  exact eq_of_integer? (NeutralZero.zero_add_add _ hplus')
    (zero_add_moved (NeutralZero.zero_add_add _ hplus) accidental) htone' htone

/-- The root alone. -/
theorem pitchOf_moved :
    pitchOf (Vocabulary.standard : Vocabulary α) (String.ofList [letter, accidental]) octave
      = moved accidental (pitchOf Vocabulary.standard (String.ofList [letter]) octave) := by
  have htuned : (Vocabulary.standard : Vocabulary α).IntegerTuned := integerTuned_standard
  have hisSome : (Scalar.integer? octave).isSome = true := Option.isSome_of_mem hoctave
  obtain ⟨-, hplus⟩ := htuned.pitchOf (String.ofList [letter]) hisSome
  obtain ⟨-, hplus'⟩ := htuned.pitchOf (String.ofList [letter, accidental]) hisSome
  have htone := tone_moved hletter haccidental h hoctave hsmall ExactIntegers.integer?_zero
    (by decide)
  rwa [IntegerSums.add_comm, hplus', IntegerSums.add_comm, hplus] at htone

end

/-- **In every octave that is an integer**, on doubles as well as on fractions. -/
theorem movesChord_of_integer [IntegerSums α] [DecidableEq α] (quality : String) {octave : α}
    (hoctave : (Scalar.integer? octave).isSome = true) :
    MovesChord letter accidental quality octave := by
  refine movesChord_of_listed hletter haccidental fun h hnatural haltered => ?_
  obtain ⟨n, hn⟩ := Option.isSome_iff_exists.mp hoctave
  have hsmall : |n| < 2 ^ 40 := (octave_of_unclamped hn hnatural).trans (by decide)
  refine chordPitches_map hnatural haltered (fun interval hmem => ?_) fun x hx y hy => ?_
  · rw [intervalsOf_standard] at hmem
    obtain ⟨j, hj, rfl⟩ := List.mem_map.mp hmem
    have hmost := (rising_intervalNumbers _).2.2 j hj
    exact tone_moved hletter haccidental h hn hsmall (IntegerSums.integer?_ofNat (by omega))
      (by rw [abs_lt]; omega)
  · obtain ⟨k, hk, rfl⟩ := exists_ofNat_of_mem_chordTones integerTuned_standard hoctave hx
    obtain ⟨l, hl, rfl⟩ := exists_ofNat_of_mem_chordTones integerTuned_standard hoctave hy
    exact same_moved (IntegerSums.integer?_ofNat (by omega))
      (IntegerSums.integer?_ofNat (by omega)) (by rw [abs_lt]; omega) (by rw [abs_lt]; omega) _

/-- **In every octave, on fractions**, whether it is an integer or not. -/
theorem movesChord_rat (quality : String) (octave : Rat) :
    MovesChord letter accidental quality octave := by
  refine movesChord_of_listed hletter haccidental fun h hnatural haltered => ?_
  have hsemitones : (semitoneNumber (spellPitchClass [letter, accidental]) : Rat)
      = semitoneNumber (spellPitchClass [letter]) + direction accidental := by
    exact_mod_cast semitoneNumber_of_listed hletter haccidental h
  refine chordPitches_map hnatural haltered (fun interval _ => ?_) fun x _ y _ => ?_
  · unfold pitchOf
    rw [moved_rat, semitoneOf_standard, semitoneOf_standard, String.toList_ofList,
      String.toList_ofList, Scalar.ofNat_rat, Scalar.ofNat_rat, hsemitones]
    ring
  · rw [moved_rat, moved_rat]
    unfold Scalar.same
    simp only [add_le_add_iff_right]

end

section

variable {letter accidental digit : Char}

theorem isAccidental_of_isDigit (hdigit : digit.isDigit = true) : isAccidental digit = false := by
  rw [Bool.eq_false_iff]
  intro h
  simp only [isAccidental, Bool.or_eq_true, beq_iff_eq] at h
  rcases h with rfl | rfl
  · exact absurd hdigit (by decide)
  · exact absurd hdigit (by decide)

theorem digit_lt_ten (hdigit : digit.isDigit = true) : digit.toNat - '0'.toNat < 10 := by
  have hmost : digit.toNat ≤ 57 := (Char.isDigit_iff_toNat.mp hdigit).2
  have hzero : '0'.toNat = 48 := rfl
  omega

section

variable {α : Type} [Scalar α] (v : Vocabulary α) (hletter : isNoteLetter letter = true)
  (hdigit : digit.isDigit = true)

include hletter hdigit

/-- What a token with a letter, an accidental or none, and a digit is read as. -/
theorem NoteToken.ofText?_eq (middle : List Char)
    (hmiddle : accidentalOf (middle ++ [digit]) = middle) :
    NoteToken.ofText? v (letter :: (middle ++ [digit]))
      = some ⟨String.ofList (letter.toUpper :: middle), digit.toNat - '0'.toNat,
          pitchOf v (String.ofList (letter.toUpper :: middle))
            (Scalar.ofNat (digit.toNat - '0'.toNat))⟩ := by
  unfold NoteToken.ofText?
  rw [rootOf?_cons hletter, hmiddle, List.drop_left]
  dsimp only
  rw [if_pos hdigit]

theorem NoteToken.ofText?_natural : NoteToken.ofText? v [letter, digit]
    = some ⟨String.ofList [letter.toUpper], digit.toNat - '0'.toNat,
        pitchOf v (String.ofList [letter.toUpper]) (Scalar.ofNat (digit.toNat - '0'.toNat))⟩ :=
  NoteToken.ofText?_eq v hletter hdigit []
    (accidentalOf_of_not (by simpa using isAccidental_of_isDigit hdigit))

theorem NoteToken.ofText?_altered (haccidental : isAccidental accidental = true) :
    NoteToken.ofText? v [letter, accidental, digit]
      = some ⟨String.ofList [letter.toUpper, accidental], digit.toNat - '0'.toNat,
          pitchOf v (String.ofList [letter.toUpper, accidental])
            (Scalar.ofNat (digit.toNat - '0'.toNat))⟩ :=
  NoteToken.ofText?_eq v hletter hdigit [accidental]
    (accidentalOf_cons_of_pos haccidental [digit])

end

/-- An accidental moves a token's pitch by a semitone; but one whose name the table lacks has the
pitch of a C. -/
def MovesToken (α : Type) [Scalar α] (letter accidental digit : Char) : Prop :=
  ∃ natural altered : NoteToken α,
    NoteToken.ofText? Vocabulary.standard [letter, digit] = some natural ∧
      NoteToken.ofText? Vocabulary.standard [letter, accidental, digit] = some altered ∧
      if Unlisted letter accidental then
        (NoteToken.ofText? Vocabulary.standard ['C', digit]).map NoteToken.pitch
          = some altered.pitch
      else altered.pitch = moved accidental natural.pitch

theorem movesToken {α : Type} [Scalar α] [IntegerSums α] (hletter : isNoteLetter letter = true)
    (haccidental : isAccidental accidental = true) (hdigit : digit.isDigit = true) :
    MovesToken α letter accidental digit := by
  obtain ⟨hupper, htwice⟩ := isNoteLetter_toUpper hletter
  have hunlisted : Unlisted letter.toUpper accidental ↔ Unlisted letter accidental := by
    unfold Unlisted
    rw [htwice]
  refine ⟨_, _, NoteToken.ofText?_natural _ hletter hdigit,
    NoteToken.ofText?_altered _ hletter hdigit haccidental, ?_⟩
  split
  · next h =>
    rw [NoteToken.ofText?_natural _ (by decide) hdigit, Option.map_some]
    exact congrArg some (pitchOf_of_unlisted hupper haccidental (hunlisted.mpr h) _).symm
  · next h =>
    have hlt := digit_lt_ten hdigit
    generalize digit.toNat - '0'.toNat = octave at hlt
    exact pitchOf_moved hupper haccidental (fun h' => h (hunlisted.mp h'))
      (IntegerSums.integer?_ofNat (by omega)) (by rw [abs_lt]; omega)

end

/-- **Accidentals move by a semitone, where the table has the name.** With the standard vocabulary,
for every letter with an accidental behind it, in either case of the letter: unless the name is
`E#`, `B#`, `Cb` or `Fb`, a chord of any quality is that on the letter with every pitch a semitone
higher or lower, in every octave in which no tone has to be brought into range, and so is the pitch
of a note token. On these four names a chord is one on C, and a token has the pitch of a C. Octaves
are integers, or any fractions where nothing is rounded. -/
theorem accidentals_move {α : Type} [Scalar α] [IntegerSums α] [DecidableEq α]
    {letter accidental : Char} (hletter : isNoteLetter letter = true)
    (haccidental : isAccidental accidental = true) :
    (∀ (quality : String) (octave : α), (Scalar.integer? octave).isSome = true →
        MovesChord letter accidental quality octave) ∧
      (∀ (quality : String) (octave : Rat), MovesChord letter accidental quality octave) ∧
      ∀ digit : Char, digit.isDigit = true → MovesToken α letter accidental digit :=
  ⟨fun quality _ hoctave => movesChord_of_integer hletter haccidental quality hoctave,
    movesChord_rat hletter haccidental, fun _ hdigit => movesToken hletter haccidental hdigit⟩

/-- A seventh chord on B flat, in octave three. -/
theorem accidentals_move_flatB :
    chordPitches (Vocabulary.standard : Vocabulary Float) "B" "m7" 3 = [59, 62, 66, 69] ∧
      chordPitches (Vocabulary.standard : Vocabulary Float) "Bb" "m7" 3 = [58, 61, 65, 68] := by
  have hnatural : chordPitches (Vocabulary.standard : Vocabulary Float) "B" "m7" 3
      = [59, 62, 66, 69] := by
    decide +kernel
  have hunclamped : Unclamped (Vocabulary.standard : Vocabulary Float) "B" "m7" 3 := by
    unfold Unclamped
    decide +kernel
  have hunclamped' : Unclamped (Vocabulary.standard : Vocabulary Float) "Bb" "m7" 3 := by
    unfold Unclamped
    decide +kernel
  have hletter : isNoteLetter 'B' = true := by decide
  have haccidental : isAccidental 'b' = true := by decide
  obtain ⟨hmoves, -⟩ := accidentals_move (α := Float) hletter haccidental
  have hchord := hmoves "m7" 3 (by decide +kernel)
  rw [MovesChord, if_neg (by decide)] at hchord
  refine ⟨hnatural, (hchord hunclamped hunclamped').trans ?_⟩
  dsimp only
  rw [show String.ofList ['B'] = "B" from rfl, hnatural]
  decide +kernel

/-- E sharp is a C, and so are the chords on it. -/
theorem not_accidentals_move :
    (¬∀ (letter accidental : Char) (quality : String) (octave : Float),
        isNoteLetter letter = true → isAccidental accidental = true →
          Unclamped Vocabulary.standard (String.ofList [letter]) quality octave →
          Unclamped Vocabulary.standard (String.ofList [letter, accidental]) quality octave →
            chordPitches Vocabulary.standard (String.ofList [letter, accidental]) quality octave
              = (chordPitches Vocabulary.standard (String.ofList [letter]) quality octave).map
                  (moved accidental)) ∧
      ¬∀ (letter accidental digit : Char) (natural altered : NoteToken Float),
          NoteToken.ofText? Vocabulary.standard [letter, digit] = some natural →
          NoteToken.ofText? Vocabulary.standard [letter, accidental, digit] = some altered →
            altered.pitch = moved accidental natural.pitch := by
  constructor
  · intro hall
    have hchord := hall 'E' '#' "" 4 (by decide) (by decide)
      (by unfold Unclamped; decide +kernel) (by unfold Unclamped; decide +kernel)
    exact absurd hchord (by decide +kernel)
  · intro hall
    have htoken := hall 'E' '#' '4' ⟨"E", 4, 64⟩ ⟨"E#", 4, 60⟩ (by decide +kernel)
      (by decide +kernel)
    exact absurd htoken (by decide +kernel)

end LeadSheet
