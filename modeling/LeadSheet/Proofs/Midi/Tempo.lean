import LeadSheet.Proofs.Midi.Opened
import LeadSheet.Proofs.Number.Whole
import LeadSheet.Proofs.Sheet.Saved

/-!
# The tempo of a file

A file holds a tempo as the microseconds a beat takes, a whole number, in three bytes. The whole
number is the right one: the quotient is rounded twice, to a double and to an integer, and that is
as if it were rounded once (`integer?_microsecondsPerBeat`). The three bytes keep what fits of it.
At four beats a minute or more that is all of it, and up to `120000000` beats a minute it is not
zero. A slower tempo comes back as a faster one (`slow_tempo_is_not_read`), and a beat that is
faster still comes back as one that takes no time (`tempo_of_readBack`).
-/

namespace LeadSheet.Midi

open Double

/-! ## The length of a beat -/

/-- The microseconds that a beat takes at so many beats a minute, rounded. -/
def beatLength (tempo : Nat) : Int := ⌊(microsecondsPerMinute : Rat) / tempo + 1 / 2⌋

section

variable {tempo : Nat} (hpos : 0 < tempo)

include hpos

/-- The length of a beat, by division of integers. -/
theorem beatLength_eq :
    beatLength tempo = ((2 * microsecondsPerMinute + tempo) / (2 * tempo) : Nat) := by
  have hquotient : (microsecondsPerMinute : Rat) / tempo + 1 / 2
      = ((2 * microsecondsPerMinute + tempo : Nat) : Rat) / (2 * tempo : Nat) := by
    have : (tempo : Rat) ≠ 0 := by exact_mod_cast hpos.ne'
    push_cast
    field_simp
  rw [beatLength, hquotient, Rat.floor_natCast_div_natCast, Int.natCast_ediv]

theorem beatLength_pos_iff : 0 < beatLength tempo ↔ tempo ≤ 2 * microsecondsPerMinute := by
  rw [beatLength_eq hpos, Int.natCast_pos, Nat.div_pos_iff]
  omega

theorem beatLength_lt_iff (bound : Nat) :
    beatLength tempo < bound ↔ 2 * microsecondsPerMinute + tempo < bound * (2 * tempo) := by
  rw [beatLength_eq hpos, Int.ofNat_lt, Nat.div_lt_iff_lt_mul (by omega)]

theorem beatLength_nonneg : 0 ≤ beatLength tempo := beatLength_eq hpos ▸ Int.natCast_nonneg _

/-- Three bytes hold the length of a beat at four beats a minute or more. -/
theorem beatLength_emod_eq_self_iff : beatLength tempo % 2 ^ 24 = beatLength tempo ↔ 4 ≤ tempo := by
  have hnonneg := beatLength_nonneg hpos
  have hlt := beatLength_lt_iff hpos (2 ^ 24)
  rw [microsecondsPerMinute] at hlt
  push_cast at hlt
  omega

/-- The length of a beat is rounded to so many microseconds, half a microsecond more or less. -/
theorem bounds_of_beatLength {k : Nat} (hk : beatLength tempo = k) :
    2 * k * tempo ≤ 2 * microsecondsPerMinute + tempo ∧
      2 * microsecondsPerMinute < (2 * k + 1) * tempo := by
  rw [beatLength_eq hpos, Int.natCast_inj] at hk
  have hlow := Nat.div_mul_le_self (2 * microsecondsPerMinute + tempo) (2 * tempo)
  have hhigh := Nat.lt_div_mul_add (a := 2 * microsecondsPerMinute + tempo) (b := 2 * tempo)
    (by omega)
  rw [hk] at hlow hhigh
  constructor <;> linarith

/-- Between the exact length of a beat and the next half integer there is a double. -/
theorem exists_held_of_beatLength {k : Nat} (hk : beatLength tempo = k) :
    ∃ m e, Held m e ∧ (microsecondsPerMinute : Rat) / tempo ≤ m * 2 ^ e ∧
      (m : Rat) * 2 ^ e < k + 1 / 2 := by
  have htempo : (0 : Rat) < tempo := by exact_mod_cast hpos
  obtain ⟨hlow, hhigh⟩ := bounds_of_beatLength hpos hk
  rw [microsecondsPerMinute] at hlow hhigh ⊢
  by_cases hone : tempo = 1
  · -- the length is a whole number
    subst hone
    obtain ⟨m, e, hheld, hvalue⟩ := exists_held_mul (n := 60000000) (g := 0) (by decide)
      (by decide) (by decide) (by decide)
    have hk : (60000000 : Rat) ≤ k := by exact_mod_cast (by omega : 60000000 ≤ k)
    refine ⟨m, e, hheld, ?_, ?_⟩ <;> rw [← hvalue]
    · norm_num
    · norm_num
      linarith
  · -- the length misses the half integer by `1 / (2 * tempo)`, and where that is less than the
    -- double does, the length is far below one half
    have hk : k ≤ 30000000 := by
      have := Nat.mul_le_mul_left (2 * k - 1) (by omega : 2 ≤ tempo)
      rw [Nat.sub_mul (2 * k) 1 tempo] at this
      omega
    have hproduct : 60000000 * 2 ^ 28 + tempo ≤ (2 * k + 1) * tempo * 2 ^ 27 := by
      have := Nat.le_mul_of_pos_left tempo (by omega : 0 < 2 * k + 1)
      omega
    have hproduct' : (60000000 * 2 ^ 28 + tempo : Rat) ≤ (2 * k + 1) * tempo * 2 ^ 27 := by
      exact_mod_cast hproduct
    obtain ⟨m, e, hheld, hvalue⟩ := exists_held_mul (n := (2 * k + 1) * 2 ^ 27 - 1) (g := -28)
      (by omega) (by omega) (by decide) (by decide)
    rw [Nat.cast_sub (by omega)] at hvalue
    push_cast at hvalue
    refine ⟨m, e, hheld, ?_, ?_⟩ <;> rw [← hvalue]
    · rw [div_le_iff₀ htempo]
      norm_num at hproduct' ⊢
      linarith
    · norm_num
      linarith

end

/-- **The length of a beat is worked out right** at any whole number of beats a minute. -/
theorem integer?_microsecondsPerBeat {x : Float} {tempo : Nat} (hpos : 0 < tempo)
    (hx : Scalar.integer? x = some (tempo : Int)) :
    Scalar.integer? (microsecondsPerBeat x) = some (beatLength tempo) := by
  have hminute : Scalar.integer? (Scalar.ofNat microsecondsPerMinute : Float)
      = some (microsecondsPerMinute : Int) := by
    decide +kernel
  have hrounds := div_roundsTo (valueOf?_of_integer? hminute) (valueOf?_of_integer? hx)
    (by norm_num [microsecondsPerMinute]) (by exact_mod_cast hpos)
  rw [Int.cast_natCast, Int.cast_natCast] at hrounds
  obtain ⟨k, hk⟩ : ∃ k : Nat, beatLength tempo = k := ⟨_, beatLength_eq hpos⟩
  obtain ⟨m, e, hheld, hle, hlt⟩ := exists_held_of_beatLength hpos hk
  rw [hk]
  refine hrounds.integer?_round ?_ ?_ hheld hle hlt
  · have := Int.floor_le ((microsecondsPerMinute : Rat) / tempo + 1 / 2)
    rw [← beatLength, hk, Int.cast_natCast] at this
    linarith
  · have := (beatLength_lt_iff hpos (2 ^ 52)).mpr (by rw [microsecondsPerMinute]; omega)
    rw [hk] at this
    exact_mod_cast this

/-! ## The tempo that is read -/

/-- Three bytes are read as what fits of the number that was written. -/
theorem microseconds?_bigEndian (n : Int) :
    (EventBody.metadata (some tempoMeta) (bigEndian 3 n)).microseconds?
      = some (n % 2 ^ 24).toNat := by
  have hvalue := foldl_bigEndian_emod 3 n
  simp only [bigEndian, List.nil_append, List.cons_append, List.foldl_cons, List.foldl_nil]
    at hvalue
  simp only [bigEndian, List.nil_append, List.cons_append, EventBody.microseconds?, if_true,
    Option.some.injEq]
  omega

/-- **The tempo that is read back.** If a score at a whole number of beats a minute was written and
can be read, then its file sets what fits in three bytes of the rounded length of a beat. That is
the length itself at four beats a minute or more, and the length is not zero up to twice as many
beats a minute as there are microseconds in one. -/
theorem tempo_of_readBack {v : Vocabulary Float} {options : ExportOptions Float} {s : Score Float}
    {file : File} {tempo : Nat} (hread : readBack? v options s = some file)
    (htracks : file.tracks ≠ []) (hpos : 0 < tempo)
    (htempo : Scalar.integer? s.tempo = some (tempo : Int)) :
    (∃ event, file.tracks.head? = some ⟨[event, endEvent 0]⟩ ∧
      event.body.microseconds? = some (beatLength tempo % 2 ^ 24).toNat) ∧
    file.tempo? = some (beatsPerMinute (Scalar.ofNat (beatLength tempo % 2 ^ 24).toNat) : Float) ∧
    (beatLength tempo % 2 ^ 24 = beatLength tempo ↔ 4 ≤ tempo) ∧
    (0 < beatLength tempo ↔ tempo ≤ 2 * microsecondsPerMinute) := by
  have hfirst := head?_of_readBack hread htracks
  have hlength := Scalar.truncate_of_integer? (integer?_microsecondsPerBeat hpos htempo)
  have hset := microseconds?_bigEndian (beatLength tempo)
  rw [tempoEvents, hlength] at hfirst
  refine ⟨⟨_, hfirst, hset⟩, ?_, beatLength_emod_eq_self_iff hpos, beatLength_pos_iff hpos⟩
  obtain ⟨rest, hrest⟩ := List.head?_eq_some_iff.mp hfirst
  rw [File.tempo?, hrest, List.flatMap_cons, List.cons_append, List.findSome?_cons, hset]
  rfl

theorem tempo_of_readBack_duet :
    ∃ file, readBack? Vocabulary.standard .standard duet = some file ∧
      Scalar.integer? duet.tempo = some 90 ∧ beatLength 90 = 666667 ∧
      file.tempo? = some (beatsPerMinute (Scalar.ofNat 666667) : Float) := by
  have hread : (readBack? Vocabulary.standard .standard duet).any
      (fun file => !file.tracks.isEmpty) = true := by
    decide +kernel
  have htempo : Scalar.integer? duet.tempo = some ((90 : Nat) : Int) := by decide +kernel
  have hbeat : beatLength 90 = 666667 := beatLength_eq (by decide)
  obtain ⟨file, hfile, htracks⟩ := (Option.any_eq_true _ _).mp hread
  obtain ⟨-, hfound, -⟩ := tempo_of_readBack hfile (by simpa using htracks) (by decide) htempo
  rw [hbeat] at hfound
  exact ⟨file, hfile, htempo, hbeat, hfound⟩

/-- A sheet at three beats a minute. -/
def slowSheet : List Char := "TEMPO: 3\nSECTION: A [1 bars]\nPIANO: C4(q)\n".toList

/-- **A tempo below four beats a minute is lost**: no event of the file has it. -/
theorem slow_tempo_is_not_read :
    ∃ s : Score Float,
      (Sheet.read Vocabulary.standard (String.ofList slowSheet)).outcome = .ok s ∧
      s.sections ≠ [] ∧ Scalar.integer? s.tempo = some 3 ∧
      ∃ file, readBack? Vocabulary.standard .standard s = some file ∧
        ∀ t ∈ file.tracks, ∀ e ∈ t.events, e.body.microseconds? ≠ some (beatLength 3).toNat := by
  have hread : (Sheet.readCleaned (Vocabulary.standard : Vocabulary Float)
      (Sheet.clean (Sheet.repair slowSheet))).outcome.toOption.any (fun s =>
        !s.sections.isEmpty && Scalar.integer? s.tempo == some 3 &&
        (readBack? Vocabulary.standard .standard s).any (fun file => file.tracks.all fun t =>
          t.events.all fun e => e.body.microseconds? != some 20000000)) = true := by
    decide +kernel
  have hbeat : beatLength 3 = 20000000 := beatLength_eq (by decide)
  obtain ⟨s, hs, hslow⟩ := Sheet.exists_of_outcome hread
  rw [Bool.and_eq_true, Bool.and_eq_true] at hslow
  obtain ⟨⟨hsections, htempo⟩, hfile⟩ := hslow
  obtain ⟨file, hfile, hevents⟩ := (Option.any_eq_true _ _).mp hfile
  refine ⟨s, (Sheet.outcome_read_ofList _ (by decide +kernel)).trans hs, by simpa using hsections,
    by simpa using htempo, file, hfile, ?_⟩
  rw [hbeat]
  simpa using hevents

end LeadSheet.Midi
