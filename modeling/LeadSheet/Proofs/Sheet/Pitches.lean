import LeadSheet.Proofs.Number.Sums
import LeadSheet.Proofs.Sheet.Lines
import LeadSheet.Proofs.Sheet.Saved
import LeadSheet.Timeline.Channel

/-!
# Pitches, durations and velocities of notes that were read

With the standard vocabulary a note has an integer for a pitch, a duration above zero and a velocity
between zero and one, and the sheet has a token that tells its pitch (`notes_of_read`). The pitch of
a token is worked out from its letter and its octave digit alone, and octave nine reaches beyond the
range of MIDI: of its twelve pitch classes the last four, from G sharp on, lie above 127. Those are
sounded as the G below them, and so differ from it and from each other on paper only
(`high_notes_sound_alike`). All other notes are sounded at the pitch they are written at.
-/

namespace LeadSheet

open Double

/-! ## Note tokens -/

/-- The names of the pitch classes that lie above the range of MIDI in octave nine. -/
def highNames : List String := ["G#", "Ab", "A", "A#", "Bb", "B"]

theorem semitones_standard : ∀ entry ∈ (Vocabulary.standard : Vocabulary Float).semitones,
    ∃ k < 12, entry.2 = Scalar.ofNat k ∧ (8 ≤ k ↔ entry.1 ∈ highNames) := by
  decide +kernel

theorem exists_semitoneOf (name : String) :
    ∃ k < 12, semitoneOf (Vocabulary.standard : Vocabulary Float) name = Scalar.ofNat k ∧
      (8 ≤ k ↔ String.ofList (spellPitchClass name.toList) ∈ highNames) := by
  unfold semitoneOf
  generalize String.ofList (spellPitchClass name.toList) = spelled
  match hlookup : (Vocabulary.standard : Vocabulary Float).semitones.lookup spelled with
  | some semitones => exact semitones_standard _ (mem_of_lookup hlookup)
  | none =>
    refine ⟨0, by decide, rfl, fun hle => absurd hle (by decide), fun hhigh => ?_⟩
    -- all of these names are in the table
    have hknown : ∀ name ∈ highNames,
        ((Vocabulary.standard : Vocabulary Float).semitones.lookup name).isSome = true := by
      decide +kernel
    have hsome := hknown spelled hhigh
    rw [hlookup] at hsome
    cases hsome

/-- A name that tokens have: a letter in upper case, and perhaps an accidental. -/
theorem spellPitchClass_rootOf? {token root rest : List Char}
    (h : rootOf? token = some (root, rest)) : spellPitchClass root = root := by
  have hletter : ∀ {c : Char}, isNoteLetter c = true → c.toUpper.toNat < 0x10000 ∧
      Text.Case.upper c.toUpper = [c.toUpper] := by
    intro c hc
    have hascii : c.toNat < 0x80 := by
      simp only [isNoteLetter, Bool.or_eq_true, Bool.and_eq_true, decide_eq_true_eq] at hc
      rcases hc with ⟨-, hle⟩ | ⟨-, hle⟩
      · exact lt_of_le_of_lt (UInt32.le_iff_toNat_le.mp hle) (by decide)
      · exact lt_of_le_of_lt (UInt32.le_iff_toNat_le.mp hle) (by decide)
    revert hc
    exact Text.ascii_induction (p := fun c => isNoteLetter c = true →
      c.toUpper.toNat < 0x10000 ∧ Text.Case.upper c.toUpper = [c.toUpper]) (by decide) hascii
  have hspelled : ∀ {c : Char} (rest : List Char), isNoteLetter c = true →
      spellPitchClass (c.toUpper :: rest) = c.toUpper :: rest := by
    intro c rest hc
    obtain ⟨hsmall, hupper⟩ := hletter hc
    rw [spellPitchClass, if_pos hsmall, hupper]
    rfl
  unfold rootOf? at h
  split at h
  · next letter accidental rest' =>
    split_ifs at h with hletter haccidental
    · cases h
      exact hspelled _ (by simpa using hletter)
    · cases h
      exact hspelled _ (by simpa using hletter)
  · next letter =>
    split_ifs at h with hletter
    cases h
    exact hspelled _ hletter
  · cases h

/-- The pitch of a token by the standard vocabulary. -/
theorem NoteToken.exists_pitch {word : List Char} {token : NoteToken Float}
    (h : ofText? Vocabulary.standard word = some token) :
    ∃ p : Nat, token.pitch = Scalar.ofNat p ∧ 12 ≤ p ∧ p ≤ 131 ∧
      (127 < p ↔ token.octave = 9 ∧ token.name ∈ highNames) := by
  unfold ofText? at h
  split at h
  · next root digit hroot =>
    split at h
    · next hdigit =>
      cases h
      obtain ⟨k, hk, hsemitone, hhigh⟩ := exists_semitoneOf (String.ofList root)
      rw [String.toList_ofList, spellPitchClass_rootOf? hroot] at hhigh
      have hoctave : digit.toNat - '0'.toNat < 10 := by
        have hmost : digit.toNat ≤ 57 := (Char.isDigit_iff_toNat.mp hdigit).2
        change digit.toNat - 48 < 10
        omega
      dsimp only
      generalize digit.toNat - '0'.toNat = octave at hoctave ⊢
      refine ⟨k + (octave + 1) * 12, ?_, by omega, by omega, ?_⟩
      · unfold pitchOf
        rw [hsemitone]
        change (Scalar.ofNat k : Float) + (Scalar.ofNat octave + Scalar.ofNat 1) * Scalar.ofNat 12
          = _
        rw [ofNat_add (by omega) (by decide),
          ofNat_mul (by omega) (by decide) (by omega) (by decide),
          ofNat_add (by omega) (by omega)]
      · rw [← hhigh]
        omega
    · cases h
  · cases h

/-! ## Pitches as they are sounded -/

theorem clampPitch_ofNat {p : Nat} (hp : p < 2 ^ 53) :
    clampPitch (Scalar.ofNat p : Float) = Scalar.ofNat (min p 127) := by
  have hvalue := valueOf?_scalarOfNat hp
  have hnonneg : ¬(Scalar.ofNat p : Float) < Scalar.ofNat 0 := by
    rw [lt_iff_valueOf? hvalue (valueOf?_scalarOfNat (by decide))]
    exact_mod_cast Nat.not_lt_zero p
  unfold clampPitch Scalar.clamp
  refine (if_neg hnonneg).trans ?_
  by_cases hhigh : 127 < p
  · have hlt : (Scalar.ofNat 127 : Float) < Scalar.ofNat p := by
      rw [lt_iff_valueOf? (valueOf?_scalarOfNat (by decide)) hvalue]
      exact_mod_cast hhigh
    rw [min_eq_right hhigh.le]
    exact if_pos hlt
  · have hge : ¬(Scalar.ofNat 127 : Float) < Scalar.ofNat p := by
      rw [lt_iff_valueOf? (valueOf?_scalarOfNat (by decide)) hvalue]
      exact_mod_cast hhigh
    rw [min_eq_left (not_lt.mp hhigh)]
    exact if_neg hge

theorem ofNat_inj {p q : Nat} (hp : p < 2 ^ 53) (hq : q < 2 ^ 53)
    (h : (Scalar.ofNat p : Float) = Scalar.ofNat q) : p = q := by
  have hvalue := valueOf?_scalarOfNat hp
  rw [h, valueOf?_scalarOfNat hq] at hvalue
  exact_mod_cast (Option.some.inj hvalue).symm

/-! ## Notes that were read -/

/-- The notes of all tracks. -/
def Score.notes {α : Type} (s : Score α) : List (Note α) := s.tracks.flatMap (·.notes)

namespace Sheet

theorem note_of_soundingOf {v : Vocabulary Float} {word : List Char} {start : Float}
    {p : Params Float} {n : Note Float} (h : .note n = soundingOf v word start p) :
    ∃ token, NoteToken.ofText? v word = some token ∧
      n = ⟨token.pitch, start, p.duration, p.velocity⟩ := by
  unfold soundingOf at h
  split at h
  · next token htoken =>
    cases h
    exact ⟨token, htoken, rfl⟩
  · cases h

/-- What is read from the codes of an entry with the standard vocabulary. -/
theorem params_standard (argument : List Char) :
    let p := Params.ofText (Vocabulary.standard : Vocabulary Float) argument
    0 < p.duration ∧ 0 ≤ p.velocity ∧ p.velocity ≤ 1 := by
  refine params_ofText (D := (0 < ·)) (V := fun x => 0 ≤ x ∧ x ≤ 1) ?_ ?_ ?_ ?_ argument
  · exact fun entry hentry => (Vocabulary.unsignedTables_standard.durations entry hentry).2
  · decide +kernel
  · decide +kernel
  · decide +kernel

/-- Where a note of a score that was read comes from. -/
theorem exists_token_of_note {text : String} {s : Score Float}
    (h : (read Vocabulary.standard text).outcome = .ok s) {n : Note Float} (hn : n ∈ s.notes) :
    ∃ word token argument, word <:+: text.toList ∧
      NoteToken.ofText? Vocabulary.standard word = some token ∧
      n.pitch = token.pitch ∧
      n.duration = (Params.ofText (Vocabulary.standard : Vocabulary Float) argument).duration ∧
      n.velocity = (Params.ofText (Vocabulary.standard : Vocabulary Float) argument).velocity := by
  obtain ⟨t, ht, hn⟩ := List.mem_flatMap.mp hn
  obtain ⟨part, hpart, ht⟩ := List.mem_flatMap.mp ht
  obtain ⟨piece, hpiece, bars, -, hlines⟩ := fromLines_of_outcome h hpart
  obtain ⟨word, pattern, hline, hnotes, -, -⟩ := hlines.tracks t ht
  obtain ⟨index, before, e, he, -, hsounding⟩ := exists_entryAt_note (hnotes ▸ hn)
  obtain ⟨token, htoken, rfl⟩ := note_of_soundingOf hsounding
  exact ⟨e.word, token, e.argument, infix_of_entryAt hpiece hline he, htoken, rfl, rfl, rfl⟩

/-- The pitch of a note, told by a token that stands in the text: an integer from 12 to 131, above
127 only for the pitch classes from G sharp on, in octave nine. -/
def ToldByToken (text : List Char) (n : Note Float) : Prop :=
  ∃ (word : List Char) (token : NoteToken Float) (p : Nat), word <:+: text ∧
    NoteToken.ofText? Vocabulary.standard word = some token ∧
    n.pitch = Scalar.ofNat p ∧ 12 ≤ p ∧ p ≤ 131 ∧
    (127 < p ↔ token.octave = 9 ∧ token.name ∈ highNames) ∧
    clampPitch n.pitch = Scalar.ofNat (min p 127)

/-- Notes that sound the same are written at the same pitch, or both at the top of the range of MIDI
or beyond. -/
theorem ToldByToken.same_or_high {text : List Char} {m n : Note Float} (hm : ToldByToken text m)
    (hn : ToldByToken text n) (hsame : clampPitch m.pitch = clampPitch n.pitch) :
    m.pitch = n.pitch ∨ Scalar.ofNat 127 ≤ m.pitch ∧ Scalar.ofNat 127 ≤ n.pitch := by
  obtain ⟨-, -, p, -, -, hp, -, hpmost, -, hpclamp⟩ := hm
  obtain ⟨-, -, q, -, -, hq, -, hqmost, -, hqclamp⟩ := hn
  rw [hpclamp, hqclamp] at hsame
  have hmin : min p 127 = min q 127 := ofNat_inj (by omega) (by omega) hsame
  rw [hp, hq]
  by_cases heq : p = q
  · exact .inl (congrArg _ heq)
  · exact .inr ⟨ofNat_le (by omega), ofNat_le (by omega)⟩

theorem note_of_read {text : String} {s : Score Float}
    (h : (read Vocabulary.standard text).outcome = .ok s) {n : Note Float} (hn : n ∈ s.notes) :
    0 < n.duration ∧ 0 ≤ n.velocity ∧ n.velocity ≤ 1 ∧ ToldByToken text.toList n := by
  obtain ⟨word, token, argument, hwithin, htoken, hpitch, hduration, hvelocity⟩ :=
    exists_token_of_note h hn
  obtain ⟨hpos, hlow, hhigh⟩ := params_standard argument
  obtain ⟨p, hp, hleast, hmost, hbeyond⟩ := NoteToken.exists_pitch htoken
  rw [← hpitch] at hp
  rw [hduration, hvelocity]
  refine ⟨hpos, hlow, hhigh, word, token, p, hwithin, htoken, hp, hleast, hmost, hbeyond, ?_⟩
  rw [hp, clampPitch_ofNat (by omega)]

/-- **Notes that were read with the standard vocabulary.** Each of them has a duration above zero, a
velocity between zero and one, and a token in the sheet that tells its pitch, an integer from 12 to
131. It is above 127 if and only if the token names one of the pitch classes from G sharp on, in
octave nine; only then is it changed when it is brought into the range of MIDI. Two notes that sound
the same there are written at the same pitch, or both at 127 or above. -/
theorem notes_of_read {text : String} {s : Score Float}
    (h : (read Vocabulary.standard text).outcome = .ok s) :
    (∀ n ∈ s.notes, 0 < n.duration ∧ 0 ≤ n.velocity ∧ n.velocity ≤ 1 ∧
      ToldByToken text.toList n) ∧
    ∀ m ∈ s.notes, ∀ n ∈ s.notes, clampPitch m.pitch = clampPitch n.pitch →
      m.pitch = n.pitch ∨ Scalar.ofNat 127 ≤ m.pitch ∧ Scalar.ofNat 127 ≤ n.pitch := by
  refine ⟨fun n hn => note_of_read h hn, fun m hm n hn hsame => ?_⟩
  obtain ⟨-, -, -, hmtold⟩ := note_of_read h hm
  obtain ⟨-, -, -, hntold⟩ := note_of_read h hn
  exact hmtold.same_or_high hntold hsame

/-- Notes of octave nine, up to the highest one that MIDI has, and a chord. -/
def highSheet : List Char := "SECTION: A [1 bars]\nPIANO: c9(q,pp) G9(e) Am(h)\n".toList

theorem notes_of_read_highSheet : ∃ s : Score Float,
    (read Vocabulary.standard (String.ofList highSheet)).outcome = .ok s ∧
      s.notes.map (·.pitch) = [Scalar.ofNat 120, Scalar.ofNat 127] ∧
      ∀ n ∈ s.notes, 0 < n.duration ∧ ∃ p : Nat, n.pitch = Scalar.ofNat p ∧
        clampPitch n.pitch = Scalar.ofNat (min p 127) := by
  have hread : (readCleaned (Vocabulary.standard : Vocabulary Float)
      (clean (repair highSheet))).outcome.toOption.any (fun s =>
        decide (s.notes.map (·.pitch) = [Scalar.ofNat 120, Scalar.ofNat 127])) = true := by
    decide +kernel
  obtain ⟨s, hs, hpitches⟩ := exists_of_outcome hread
  have hs := (outcome_read_ofList _ (by decide +kernel)).trans hs
  refine ⟨s, hs, of_decide_eq_true hpitches, fun n hn => ?_⟩
  obtain ⟨hduration, -, -, -, -, p, -, -, hp, -, -, -, hclamp⟩ := (notes_of_read hs).1 n hn
  exact ⟨hduration, p, hp, hclamp⟩

/-- A sheet with a note beyond the range of MIDI, behind the last one that is in it. -/
def beyondRange : List Char := "SECTION: A [1 bars]\nPIANO: G9(q) G#9(q)\n".toList

/-- Two notes of different pitches are read without a warning and sounded the same, since one of
them lies beyond the range of MIDI. -/
theorem high_notes_sound_alike : ∃ s : Score Float,
    (read Vocabulary.standard (String.ofList beyondRange)).outcome = .ok s ∧
      (read (Vocabulary.standard : Vocabulary Float) (String.ofList beyondRange)).warnings = [] ∧
      ∃ m ∈ s.notes, ∃ n ∈ s.notes, m.pitch ≠ n.pitch ∧ Scalar.ofNat 127 < n.pitch ∧
        clampPitch m.pitch = clampPitch n.pitch := by
  have hcontent : Text.isBlankText (clean (repair beyondRange)) = false := by decide +kernel
  have hquiet : (readCleaned (Vocabulary.standard : Vocabulary Float)
      (clean (repair beyondRange))).warnings = [] := by
    decide +kernel
  have hread : (readCleaned (Vocabulary.standard : Vocabulary Float)
      (clean (repair beyondRange))).outcome.toOption.any (fun s => s.notes.any fun m =>
        s.notes.any fun n => decide (m.pitch ≠ n.pitch ∧ Scalar.ofNat 127 < n.pitch ∧
          clampPitch m.pitch = clampPitch n.pitch)) = true := by
    decide +kernel
  obtain ⟨s, hs, halike⟩ := exists_of_outcome hread
  obtain ⟨m, hm, halike⟩ := List.any_eq_true.mp halike
  obtain ⟨n, hn, halike⟩ := List.any_eq_true.mp halike
  exact ⟨s, (outcome_read_ofList _ hcontent).trans hs,
    (warnings_read_ofList _ hcontent).trans hquiet, m, hm, n, hn, of_decide_eq_true halike⟩

end Sheet

end LeadSheet
