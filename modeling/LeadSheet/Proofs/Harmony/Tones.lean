import LeadSheet.Proofs.Harmony.Integers
import LeadSheet.Proofs.Harmony.Intervals
import LeadSheet.Proofs.Number.Monotone

/-!
# The tones of a chord

A chord is sounded at the pitches that its intervals reach from the root, brought into the range of
MIDI. At either end of the range several of them may be brought to one pitch, which is sounded once:
the pitches are the tones in the order in which they come up first (`Keeps`).

With integers in the vocabulary, whatever their size, every tone is an integer from 0 to 127. If the
intervals rise from the root, the tones do not fall, since neither adding nor the limits put a
greater interval below a lesser one; and what is kept of them rises. The standard vocabulary has
such intervals for every quality (`chordPitches_clean`).
-/

namespace LeadSheet

variable {α : Type}

/-! ## Every number once -/

/-- The elements of a list, each of them once, in the order in which they come up first. -/
structure Keeps [DecidableEq α] (numbers kept : List α) : Prop where
  nodup : kept.Nodup
  mem_iff : ∀ x, x ∈ kept ↔ x ∈ numbers
  sublist : kept.Sublist numbers
  ordered : kept.Pairwise fun x y => numbers.idxOf x < numbers.idxOf y

section

variable [DecidableEq α] {numbers kept : List α} {x : α}

theorem keeps_nil : Keeps ([] : List α) [] :=
  ⟨List.nodup_nil, fun _ => Iff.rfl, List.Sublist.refl _, List.Pairwise.nil⟩

/-- What comes later makes no difference to the order. -/
theorem Keeps.ordered_append (h : Keeps numbers kept) (more : List α) :
    kept.Pairwise fun x y => (numbers ++ more).idxOf x < (numbers ++ more).idxOf y :=
  h.ordered.imp_of_mem fun {y z} hy hz hlt => by
    rwa [List.idxOf_append_of_mem ((h.mem_iff y).mp hy),
      List.idxOf_append_of_mem ((h.mem_iff z).mp hz)]

/-- What stood before is not kept again. -/
theorem Keeps.again (h : Keeps numbers kept) (hmem : x ∈ numbers) :
    Keeps (numbers ++ [x]) kept where
  nodup := h.nodup
  mem_iff y := by
    rw [h.mem_iff, List.mem_append, List.mem_singleton]
    constructor
    · exact .inl
    · rintro (hy | rfl)
      · exact hy
      · exact hmem
  sublist := h.sublist.trans (List.sublist_append_left ..)
  ordered := h.ordered_append [x]

/-- What did not stand before is kept, behind all that was. -/
theorem Keeps.new (h : Keeps numbers kept) (hnew : x ∉ numbers) :
    Keeps (numbers ++ [x]) (kept ++ [x]) where
  nodup := by
    rw [List.nodup_append]
    refine ⟨h.nodup, List.pairwise_singleton .., fun y hy z hz heq => hnew ?_⟩
    obtain rfl := List.mem_singleton.mp hz
    exact heq ▸ (h.mem_iff y).mp hy
  mem_iff y := by rw [List.mem_append, List.mem_append, h.mem_iff]
  sublist := h.sublist.append_right [x]
  ordered := by
    rw [List.pairwise_append]
    refine ⟨h.ordered_append [x], List.pairwise_singleton .., fun y hy z hz => ?_⟩
    obtain rfl := List.mem_singleton.mp hz
    have hlt := List.idxOf_lt_length_of_mem ((h.mem_iff y).mp hy)
    rw [List.idxOf_append_of_mem ((h.mem_iff y).mp hy), List.idxOf_append_of_notMem hnew]
    omega

/-- One more number, if it is compared with those before as equality does. -/
theorem Keeps.keepNew [Scalar α] (h : Keeps numbers kept)
    (hsame : ∀ y ∈ numbers, Scalar.same x y = true ↔ x = y) :
    Keeps (numbers ++ [x]) (keepNew kept x) := by
  unfold LeadSheet.keepNew
  by_cases hany : kept.any (Scalar.same x) = true
  · rw [if_pos hany]
    obtain ⟨y, hy, heq⟩ := List.any_eq_true.mp hany
    have hmem := (h.mem_iff y).mp hy
    obtain rfl := (hsame y hmem).mp heq
    exact h.again hmem
  · rw [if_neg hany]
    refine h.new fun hmem => hany ?_
    exact List.any_eq_true.mpr ⟨x, (h.mem_iff x).mpr hmem, (hsame x hmem).mpr rfl⟩

/-- **Every number is kept once.** -/
theorem keeps_distinct [Scalar α]
    (hsame : ∀ x ∈ numbers, ∀ y ∈ numbers, Scalar.same x y = true ↔ x = y) :
    Keeps numbers (distinct numbers) := by
  induction numbers using List.reverseRecOn with
  | nil => exact keeps_nil
  | append_singleton numbers x ih =>
    have hbefore := ih fun y hy z hz =>
      hsame y (List.mem_append_left _ hy) z (List.mem_append_left _ hz)
    rw [distinct_concat]
    exact hbefore.keepNew fun y hy =>
      hsame x (List.mem_append_right _ (List.mem_singleton.mpr rfl)) y (List.mem_append_left _ hy)

end

variable [Scalar α]

/-- The first number is kept. -/
theorem distinct_cons (x : α) (rest : List α) : ∃ more, distinct (x :: rest) = x :: more := by
  induction rest using List.reverseRecOn with
  | nil => exact ⟨[], rfl⟩
  | append_singleton rest y ih =>
    obtain ⟨more, hmore⟩ := ih
    rw [← List.cons_append, distinct_concat, hmore, keepNew]
    split
    · exact ⟨more, rfl⟩
    · exact ⟨more ++ [y], rfl⟩

/-- Numbers that are told apart after a step as they were before are left out alike. -/
theorem distinct_map {f : α → α} {numbers : List α}
    (hsame : ∀ x ∈ numbers, ∀ y ∈ numbers, Scalar.same (f x) (f y) = Scalar.same x y) :
    distinct (numbers.map f) = (distinct numbers).map f := by
  induction numbers using List.reverseRecOn with
  | nil => rfl
  | append_singleton numbers x ih =>
    have hbefore := ih fun y hy z hz =>
      hsame y (List.mem_append_left _ hy) z (List.mem_append_left _ hz)
    have hany : ((distinct numbers).map f).any (Scalar.same (f x))
        = (distinct numbers).any (Scalar.same x) := by
      rw [List.any_map, Bool.eq_iff_iff, List.any_eq_true, List.any_eq_true]
      refine exists_congr fun y => and_congr_right fun hy => ?_
      rw [Function.comp_apply, hsame x (List.mem_append_right _ (List.mem_singleton.mpr rfl)) y
        (List.mem_append_left _ (mem_distinct hy))]
    rw [List.map_append, List.map_singleton, distinct_concat, distinct_concat, hbefore, keepNew,
      keepNew, hany]
    split
    · rfl
    · rw [List.map_append, List.map_singleton]

/-! ## Integers -/

section

variable [IntegerSums α] {x y : α}

theorem whole_of_integer? (h : (Scalar.integer? x).isSome = true) : Scalar.Whole x := by
  obtain ⟨n, hn⟩ := Option.isSome_iff_exists.mp h
  exact ⟨(ExactIntegers.le_iff hn hn).mpr le_rfl, fun _ => h⟩

theorem isSome_integer?_ofNat {n : Nat} (hlt : n < 2 ^ 53) :
    (Scalar.integer? (Scalar.ofNat n : α)).isSome = true :=
  Option.isSome_of_mem (IntegerSums.integer?_ofNat hlt)

theorem ofNat_le_iff {m n : Nat} (hm : m < 2 ^ 53) (hn : n < 2 ^ 53) :
    (Scalar.ofNat m : α) ≤ Scalar.ofNat n ↔ m ≤ n := by
  rw [ExactIntegers.le_iff (IntegerSums.integer?_ofNat hm) (IntegerSums.integer?_ofNat hn),
    Int.ofNat_le]

theorem ofNat_lt_iff {m n : Nat} (hm : m < 2 ^ 53) (hn : n < 2 ^ 53) :
    (Scalar.ofNat m : α) < Scalar.ofNat n ↔ m < n := by
  rw [ExactIntegers.lt_iff (IntegerSums.integer?_ofNat hm) (IntegerSums.integer?_ofNat hn),
    Int.ofNat_lt]

/-- Integers are the same number if they are one integer. -/
theorem same_iff_of_integer? {m n : Int} (hx : Scalar.integer? x = some m)
    (hy : Scalar.integer? y = some n) : Scalar.same x y = true ↔ m = n := by
  have hself : x ≤ x := (ExactIntegers.le_iff hx hx).mpr le_rfl
  unfold Scalar.same
  simp only [Bool.or_eq_true, Bool.and_eq_true, Bool.not_eq_true', decide_eq_true_eq,
    decide_eq_false_iff_not, ExactIntegers.le_iff hx hy, ExactIntegers.le_iff hy hx]
  constructor
  · rintro (⟨hle, hge⟩ | ⟨hnot, -⟩)
    · exact le_antisymm hle hge
    · exact absurd hself hnot
  · rintro rfl
    exact .inl ⟨le_rfl, le_rfl⟩

theorem eq_of_integer? {n : Int} (hxplus : 0 + x = x) (hyplus : 0 + y = y)
    (hx : Scalar.integer? x = some n) (hy : Scalar.integer? y = some n) : x = y :=
  IntegerSums.eq_of_le_of_le hxplus hyplus ((ExactIntegers.le_iff hx hy).mpr le_rfl)
    ((ExactIntegers.le_iff hy hx).mpr le_rfl)

/-- An integer in the range of MIDI is a numeral. -/
theorem exists_ofNat_of_whole (hwhole : Scalar.Whole x) (hplus : 0 + x = x) (hlow : (0 : α) ≤ x)
    (hhigh : x ≤ (127 : α)) : ∃ n ≤ 127, x = Scalar.ofNat n := by
  have hzero : Scalar.integer? (0 : α) = some 0 := ExactIntegers.integer?_zero
  have hmost : Scalar.integer? (127 : α) = some 127 := IntegerSums.integer?_ofNat (by decide)
  have hfinite : Scalar.isFinite x = true := IntegerSums.isFinite_of_between
    (Scalar.isFinite_of_integer? (Option.isSome_of_mem hzero))
    (Scalar.isFinite_of_integer? (Option.isSome_of_mem hmost)) hlow hhigh
  obtain ⟨n, hn⟩ := Option.isSome_iff_exists.mp (hwhole.isSome_integer? hfinite)
  have hnonneg := (ExactIntegers.le_iff hzero hn).mp hlow
  have hle := (ExactIntegers.le_iff hn hmost).mp hhigh
  obtain ⟨k, rfl⟩ := Int.eq_ofNat_of_zero_le hnonneg
  exact ⟨k, by omega, eq_of_integer? hplus (NeutralZero.zero_add_ofDecimal k 0) hn
    (IntegerSums.integer?_ofNat (by omega))⟩

/-! ## The range of MIDI -/

theorem isNumber_ofNat {n : Nat} (hlt : n < 2 ^ 53) : Scalar.IsNumber (Scalar.ofNat n : α) :=
  (whole_of_integer? (isSome_integer?_ofNat hlt)).isNumber

/-- A tone is an integer from 0 to 127. -/
theorem exists_clampPitch (hwhole : Scalar.Whole x) (hplus : 0 + x = x) :
    ∃ n ≤ 127, clampPitch x = Scalar.ofNat n := by
  unfold clampPitch Scalar.clamp
  by_cases hlow : x < (0 : α)
  · rw [if_pos hlow]
    exact ⟨0, by decide, rfl⟩
  · rw [if_neg hlow]
    by_cases hhigh : (127 : α) < x
    · rw [if_pos hhigh]
      exact ⟨127, le_rfl, rfl⟩
    · rw [if_neg hhigh]
      exact exists_ofNat_of_whole hwhole hplus
        (OrderedNumbers.le_of_not_lt hwhole.isNumber (isNumber_ofNat (by decide)) hlow)
        (OrderedNumbers.le_of_not_lt (isNumber_ofNat (by decide)) hwhole.isNumber hhigh)

/-- The limits keep the order. -/
theorem clampPitch_mono (hx : Scalar.IsNumber x) (hy : Scalar.IsNumber y) (hle : x ≤ y) :
    clampPitch x ≤ clampPitch y := by
  have hzero : Scalar.IsNumber (0 : α) := isNumber_ofNat (n := 0) (by decide)
  have hmost : Scalar.IsNumber (127 : α) := isNumber_ofNat (n := 127) (by decide)
  have hrange : (0 : α) ≤ (127 : α) :=
    (ofNat_le_iff (m := 0) (n := 127) (by decide) (by decide)).mpr (by decide)
  unfold clampPitch Scalar.clamp
  by_cases hxlow : x < (0 : α)
  · rw [if_pos hxlow]
    split_ifs with hylow hyhigh
    · exact hzero
    · exact hrange
    · exact OrderedNumbers.le_of_not_lt hy hzero hylow
  · have hylow : ¬y < (0 : α) := fun h => hxlow (OrderedNumbers.lt_of_le_of_lt hle h)
    rw [if_neg hxlow, if_neg hylow]
    by_cases hyhigh : (127 : α) < y
    · rw [if_pos hyhigh]
      split_ifs with hxhigh
      · exact hmost
      · exact OrderedNumbers.le_of_not_lt hmost hx hxhigh
    · have hxhigh : ¬(127 : α) < x := fun h => hyhigh (OrderedNumbers.lt_of_lt_of_le h hle)
      rw [if_neg hxhigh, if_neg hyhigh]
      exact hle

end

/-! ## Tones -/

/-- The semitones and the intervals are integers. -/
structure Vocabulary.IntegerTuned (v : Vocabulary α) : Prop where
  semitones : ∀ entry ∈ v.semitones, (Scalar.integer? entry.2).isSome = true
  intervals : ∀ entry ∈ v.qualities, ∀ interval ∈ entry.2,
    (Scalar.integer? interval).isSome = true

section

variable [IntegerSums α] {v : Vocabulary α} {root quality : String} {octave : α}

theorem Vocabulary.IntegerTuned.semitoneOf (hv : v.IntegerTuned) (name : String) :
    (Scalar.integer? (semitoneOf v name)).isSome = true := by
  unfold LeadSheet.semitoneOf
  match hlookup : v.semitones.lookup (String.ofList (spellPitchClass name.toList)) with
  | none => exact isSome_integer?_ofNat (n := 0) (by decide)
  | some semitones => exact hv.semitones _ (mem_of_lookup hlookup)

theorem Vocabulary.IntegerTuned.intervalsOf (hv : v.IntegerTuned) (quality : String) :
    ∀ interval ∈ intervalsOf v quality, (Scalar.integer? interval).isSome = true := by
  unfold LeadSheet.intervalsOf
  dsimp only
  split
  · next intervals hlookup => exact hv.intervals _ (mem_of_lookup hlookup)
  · intro interval hmem
    obtain ⟨k, hk, rfl⟩ := List.mem_map.mp hmem
    have hmost := (rising_familiarIntervals _).2.2 k hk
    exact isSome_integer?_ofNat (by omega)

/-- A root is an integer, or beyond all of them, and never negative zero. -/
theorem Vocabulary.IntegerTuned.pitchOf (hv : v.IntegerTuned) (root : String)
    (hoctave : (Scalar.integer? octave).isSome = true) :
    Scalar.Whole (pitchOf v root octave) ∧ 0 + pitchOf v root octave = pitchOf v root octave := by
  have hone : (Scalar.integer? (1 : α)).isSome = true := isSome_integer?_ofNat (n := 1) (by decide)
  have hoctaves : Scalar.Whole ((octave + (1 : α)) * (12 : α)) :=
    IntegerSums.whole_mul_twelve (IntegerSums.whole_add (whole_of_integer? hoctave) hone)
  have hplus : 0 + (octave + (1 : α)) = octave + (1 : α) := by
    rw [IntegerSums.add_comm octave]
    exact NeutralZero.zero_add_add octave (NeutralZero.zero_add_ofDecimal 1 0)
  unfold LeadSheet.pitchOf
  rw [IntegerSums.add_comm (LeadSheet.semitoneOf v root)]
  exact ⟨IntegerSums.whole_add hoctaves (hv.semitoneOf root),
    NeutralZero.zero_add_add _ (IntegerSums.zero_add_mul_twelve hplus)⟩

/-- The tones of a chord, those that fall together included. -/
def chordTones (v : Vocabulary α) (root quality : String) (octave : α) : List α :=
  (intervalsOf v quality).map fun interval => clampPitch (pitchOf v root octave + interval)

/-- A tone is an integer from 0 to 127. -/
theorem exists_ofNat_of_mem_chordTones (hv : v.IntegerTuned)
    (hoctave : (Scalar.integer? octave).isSome = true) {x : α}
    (hx : x ∈ chordTones v root quality octave) : ∃ n ≤ 127, x = Scalar.ofNat n := by
  obtain ⟨interval, hmem, rfl⟩ := List.mem_map.mp hx
  obtain ⟨hwhole, hplus⟩ := hv.pitchOf root hoctave
  exact exists_clampPitch (IntegerSums.whole_add hwhole (hv.intervalsOf quality interval hmem))
    (NeutralZero.zero_add_add interval hplus)

/-- The pitches of a chord are its tones, each of them once. -/
theorem keeps_chordPitches [DecidableEq α] (hv : v.IntegerTuned)
    (hoctave : (Scalar.integer? octave).isSome = true) :
    Keeps (chordTones v root quality octave) (chordPitches v root quality octave) := by
  refine keeps_distinct fun x hx y hy => ?_
  obtain ⟨m, hm, rfl⟩ := exists_ofNat_of_mem_chordTones hv hoctave hx
  obtain ⟨n, hn, rfl⟩ := exists_ofNat_of_mem_chordTones hv hoctave hy
  have hxinteger : Scalar.integer? (Scalar.ofNat m : α) = some (m : Int) :=
    IntegerSums.integer?_ofNat (by omega)
  have hyinteger : Scalar.integer? (Scalar.ofNat n : α) = some (n : Int) :=
    IntegerSums.integer?_ofNat (by omega)
  rw [same_iff_of_integer? hxinteger hyinteger]
  constructor
  · intro heq
    rw [Int.ofNat_inj.mp heq]
  · intro heq
    rw [heq, hyinteger] at hxinteger
    exact (Option.some.inj hxinteger).symm

/-- Tones of rising intervals do not fall. -/
theorem pairwise_chordTones (hv : v.IntegerTuned)
    (hoctave : (Scalar.integer? octave).isSome = true)
    (hrise : (intervalsOf v quality).Pairwise (· < ·)) :
    (chordTones v root quality octave).Pairwise (· ≤ ·) := by
  obtain ⟨hwhole, -⟩ := hv.pitchOf root hoctave
  refine List.pairwise_map.mpr (hrise.imp_of_mem fun {x y} hx hy hlt => ?_)
  have hxinteger := hv.intervalsOf quality x hx
  have hyinteger := hv.intervalsOf quality y hy
  have hle := (OrderedNumbers.lt_iff_le_not_le.mp hlt).1
  exact clampPitch_mono (IntegerSums.whole_add hwhole hxinteger).isNumber
    (IntegerSums.whole_add hwhole hyinteger).isNumber
    (IntegerSums.add_le_add hwhole.isNumber
      (.inr ⟨Scalar.isFinite_of_integer? hxinteger, Scalar.isFinite_of_integer? hyinteger⟩) hle)

/-- Once each, they rise. -/
theorem pairwise_chordPitches [DecidableEq α] (hv : v.IntegerTuned)
    (hoctave : (Scalar.integer? octave).isSome = true)
    (hrise : (intervalsOf v quality).Pairwise (· < ·)) :
    (chordPitches v root quality octave).Pairwise (· < ·) := by
  have hkeeps : Keeps (chordTones v root quality octave) (chordPitches v root quality octave) :=
    keeps_chordPitches hv hoctave
  have hle := (pairwise_chordTones hv hoctave hrise).sublist hkeeps.sublist
  refine (hle.and hkeeps.nodup).imp_of_mem fun {x y} hx hy h => ?_
  obtain ⟨m, hm, rfl⟩ := exists_ofNat_of_mem_chordTones hv hoctave ((hkeeps.mem_iff x).mp hx)
  obtain ⟨n, hn, rfl⟩ := exists_ofNat_of_mem_chordTones hv hoctave ((hkeeps.mem_iff y).mp hy)
  obtain ⟨hmn, hne⟩ := h
  rw [ofNat_le_iff (by omega) (by omega)] at hmn
  rw [ofNat_lt_iff (by omega) (by omega)]
  exact lt_of_le_of_ne hmn fun heq => hne (heq ▸ rfl)

/-- The first interval is that of the root. -/
theorem chordPitches_eq_cons (hv : v.IntegerTuned) (root : String)
    (hoctave : (Scalar.integer? octave).isSome = true) {rest : List α}
    (hroot : intervalsOf v quality = 0 :: rest) :
    ∃ more, chordPitches v root quality octave = clampPitch (pitchOf v root octave) :: more := by
  obtain ⟨-, hplus⟩ := hv.pitchOf root hoctave
  unfold chordPitches
  dsimp only
  rw [hroot, List.map_cons, IntegerSums.add_comm, hplus]
  exact distinct_cons _ _

end

/-- The intervals of the standard vocabulary are in order. -/
theorem exists_intervalsOf_standard [IntegerSums α] (quality : String) :
    ∃ rest, intervalsOf (Vocabulary.standard : Vocabulary α) quality = 0 :: rest ∧
      (0 :: rest).Pairwise (· < ·) := by
  obtain ⟨hroot, hrise, hmost⟩ := rising_intervalNumbers (Text.toLower quality.toList)
  rw [intervalsOf_standard]
  generalize intervalNumbers (Text.toLower quality.toList) = numbers at hroot hrise hmost
  obtain ⟨rest, rfl⟩ : ∃ rest, numbers = 0 :: rest := List.head?_eq_some_iff.mp hroot
  refine ⟨rest.map Scalar.ofNat, rfl, ?_⟩
  change (List.map Scalar.ofNat (0 :: rest)).Pairwise (· < ·)
  refine List.pairwise_map.mpr (hrise.imp_of_mem fun {m n} hm hn hlt => ?_)
  have hmsmall := hmost m hm
  have hnsmall := hmost n hn
  exact (ofNat_lt_iff (by omega) (by omega)).mpr hlt

theorem integerTuned_standard [IntegerSums α] :
    (Vocabulary.standard : Vocabulary α).IntegerTuned where
  semitones := by
    have hsmall : ∀ entry ∈ numberedSemitones, entry.2 < 12 := by decide
    rw [semitones_standard_eq]
    intro entry hentry
    obtain ⟨numbered, hmem, rfl⟩ := List.mem_map.mp hentry
    have := hsmall numbered hmem
    exact isSome_integer?_ofNat (by omega)
  intervals := by
    rw [qualities_standard_eq]
    intro entry hentry interval hinterval
    obtain ⟨numbered, hmem, rfl⟩ := List.mem_map.mp hentry
    obtain ⟨k, hk, rfl⟩ := List.mem_map.mp hinterval
    have := (rising_numberedQualities numbered hmem).2.2 k hk
    exact isSome_integer?_ofNat (by omega)

/-- **The pitches of a chord are clean.** With any vocabulary whose semitones and intervals are
integers, for any root, any quality and any octave that is an integer, a chord lists integers from 0
to 127, each of them once: these are the pitches that its intervals reach from the root, brought
into range, in the order in which they come up first. Where the intervals rise from zero, the list
starts with the root's pitch, brought into range, and rises; and with the standard vocabulary all
intervals do. -/
theorem chordPitches_clean [IntegerSums α] [DecidableEq α] (v : Vocabulary α)
    (hv : v.IntegerTuned) (root quality : String) (octave : α)
    (hoctave : (Scalar.integer? octave).isSome = true) :
    let tones := (intervalsOf v quality).map fun interval =>
      clampPitch (pitchOf v root octave + interval)
    let pitches := chordPitches v root quality octave
    pitches.Nodup ∧ (∀ x ∈ pitches, ∃ n ≤ 127, x = Scalar.ofNat n) ∧
      (∀ x, x ∈ pitches ↔ x ∈ tones) ∧
      pitches.Pairwise (fun x y => tones.idxOf x < tones.idxOf y) ∧
      (∀ rest, intervalsOf v quality = 0 :: rest → (0 :: rest).Pairwise (· < ·) →
        pitches.head? = some (clampPitch (pitchOf v root octave)) ∧ pitches.Pairwise (· < ·)) ∧
      (Vocabulary.standard : Vocabulary α).IntegerTuned ∧
      ∃ rest, intervalsOf (Vocabulary.standard : Vocabulary α) quality = 0 :: rest ∧
        (0 :: rest).Pairwise (· < ·) := by
  intro tones pitches
  have hkeeps : Keeps tones pitches := keeps_chordPitches hv hoctave
  refine ⟨hkeeps.nodup, fun x hx => ?_, hkeeps.mem_iff, hkeeps.ordered, fun rest hroot hrise => ?_,
    integerTuned_standard, exists_intervalsOf_standard quality⟩
  · exact exists_ofNat_of_mem_chordTones hv hoctave ((hkeeps.mem_iff x).mp hx)
  · obtain ⟨more, hmore⟩ := chordPitches_eq_cons hv root hoctave hroot
    refine ⟨?_, pairwise_chordPitches hv hoctave (hroot ▸ hrise)⟩
    change (chordPitches v root quality octave).head? = _
    rw [hmore]
    rfl

/-- The ninth chord on A in octave eight: its ninth lies above the range, and falls together with
its seventh. -/
theorem chordPitches_clean_lastOctave :
    let pitches := chordPitches (Vocabulary.standard : Vocabulary Float) "A" "9" 8
    pitches = [117, 121, 124, 127] ∧ pitches.Nodup ∧ pitches.Pairwise (· < ·) := by
  intro pitches
  have hpitches : pitches = [117, 121, 124, 127] := by decide +kernel
  have hninth : intervalsOf (Vocabulary.standard : Vocabulary Float) "9" = [0, 4, 7, 10, 14] := by
    decide +kernel
  have hclean := chordPitches_clean (Vocabulary.standard : Vocabulary Float) integerTuned_standard
    "A" "9" 8 (by decide +kernel)
  obtain ⟨hnodup, -, -, -, hrise, -⟩ := hclean
  obtain ⟨-, hpairwise⟩ := hrise [4, 7, 10, 14] hninth (by decide +kernel)
  exact ⟨hpitches, hnodup, hpairwise⟩

end LeadSheet
