import LeadSheet.Harmony.Chord
import LeadSheet.Proofs.Sheet.Written

/-!
# Chord symbols, taken apart

A token of a pattern is always a chord symbol: it has a root, and word characters behind that.
Taking it apart loses nothing but the case of its letter. Either the rest is the quality, or the
rest is a quality that the vocabulary has, and an octave digit that the vocabulary does not have
with it (`split_without_loss`).

Root and quality are again a chord symbol, and it has just these parts. The root is found again
since a quality starts with no accidental unless the root has one already, and what is left of a
rest when its digit is taken off still starts as the rest does. No second digit is taken off, since
the quality is known.
-/

namespace LeadSheet

variable {α : Type}

/-- Tokens are what the words of entries are. -/
theorem isToken_iff_read {word : List Char} :
    IsToken word ↔ ∃ text rest, Sheet.pitchedWord? text = some (word, rest) := by
  constructor
  · intro h
    have hread : Sheet.pitchedWord? (word ++ []) = some (word, []) :=
      Sheet.pitchedWord?_append h nofun
    exact ⟨_, [], hread⟩
  · rintro ⟨text, rest, h⟩
    match text with
    | [] => cases h
    | letter :: behind =>
      have hletter : isNoteLetter letter = true := by
        by_contra hnot
        simp [Sheet.pitchedWord?, hnot] at h
      rw [Sheet.pitchedWord?_cons hletter] at h
      cases h
      exact isToken_append letter _ _ hletter (accidentalOf_cases behind) fun c hc =>
        List.mem_takeWhile_imp hc

/-! ## Roots -/

theorem isNoteLetter_toUpper {c : Char} (h : isNoteLetter c = true) :
    isNoteLetter c.toUpper = true ∧ c.toUpper.toUpper = c.toUpper := by
  have hascii := Text.ascii_of_isWordChar (isWordChar_of_isNoteLetter h)
  exact Text.ascii_induction (p := fun c => isNoteLetter c = true →
    isNoteLetter c.toUpper = true ∧ c.toUpper.toUpper = c.toUpper) (by decide) hascii h

/-- The accidental of what is behind a letter is found again before any start of the rest. -/
theorem accidentalOf_append {behind shorter : List Char}
    (h : shorter <+: behind.drop (accidentalOf behind).length) :
    accidentalOf (accidentalOf behind ++ shorter) = accidentalOf behind := by
  cases behind with
  | nil =>
    rw [List.drop_nil, List.prefix_nil] at h
    rw [h]
    rfl
  | cons c behind =>
    by_cases hc : isAccidental c = true
    · rw [accidentalOf_cons_of_pos hc]
      exact accidentalOf_cons_of_pos hc shorter
    · have hnone : accidentalOf (c :: behind) = [] := accidentalOf_of_not (by simpa using hc)
      rw [hnone] at h ⊢
      cases shorter with
      | nil => rfl
      | cons d shorter =>
        obtain ⟨rfl, -⟩ := List.cons_prefix_cons.mp h
        exact accidentalOf_of_not (by simpa using hc)

/-- A token has a root, and only the case of its letter is lost. Before any start of what is behind
it, the root is found again. -/
theorem IsToken.exists_root {token : List Char} (h : IsToken token) :
    ∃ root rest, rootOf? token = some (root, rest) ∧
      root ++ rest = token.modifyHead Char.toUpper ∧
      (∀ c ∈ rest, Text.isWordChar c = true) ∧
      ∀ shorter, shorter <+: rest → rootOf? (root ++ shorter) = some (root, shorter) := by
  obtain ⟨letter, behind, rfl, hletter, hrest⟩ := h.exists_behind
  obtain ⟨hupper, htwice⟩ := isNoteLetter_toUpper hletter
  refine ⟨_, _, rootOf?_cons hletter behind, ?_, hrest, fun shorter hshorter => ?_⟩
  · rw [List.cons_append, accidentalOf_append_drop]
    rfl
  · rw [List.cons_append, rootOf?_cons hupper, accidentalOf_append hshorter, htwice,
      List.drop_left]

namespace ChordSymbol

/-! ## Qualities and octaves -/

/-- A quality that the vocabulary has keeps its last digit. -/
theorem octaveOf?_of_isKnown {v : Vocabulary α} {quality : List Char}
    (h : isKnown v quality = true) : octaveOf? v quality = none := by
  unfold octaveOf?
  split
  · rfl
  · simp [h]

/-- What an octave is taken from. -/
theorem octaveOf?_eq_some {v : Vocabulary α} {quality shorter : List Char} {octave : Nat}
    (h : octaveOf? v quality = some (shorter, octave)) :
    octave < 10 ∧ quality = shorter ++ [Nat.digitChar octave] ∧ isKnown v shorter = true ∧
      isKnown v quality = false := by
  unfold octaveOf? at h
  split at h
  · cases h
  · next last hlast =>
    dsimp only at h
    split at h
    · next htaken =>
      cases h
      simp only [Bool.and_eq_true, Bool.not_eq_true'] at htaken
      obtain ⟨⟨⟨hdigit, -⟩, hunknown⟩, hknown⟩ := htaken
      have hzero : '0'.toNat = 48 := rfl
      have hleast : 48 ≤ last.toNat := (Char.isDigit_iff_toNat.mp hdigit).1
      have hmost : last.toNat ≤ 57 := (Char.isDigit_iff_toNat.mp hdigit).2
      have hvalue : last.toNat - '0'.toNat < 10 := by omega
      have hchar : Nat.digitChar (last.toNat - '0'.toNat) = last := by
        apply Char.toNat_inj.mp
        rw [Nat.toNat_digitChar_of_lt_ten hvalue]
        omega
      refine ⟨hvalue, ?_, hknown, hunknown⟩
      rw [hchar]
      exact (List.dropLast_append_getLast? last hlast).symm
    · cases h

/-! ## Symbols -/

/-- The symbol of a root and what is behind it. -/
def divide (v : Vocabulary α) (root rest : List Char) : ChordSymbol :=
  match octaveOf? v rest with
  | some (quality, octave) => ⟨String.ofList root, String.ofList quality, octave⟩
  | none => ⟨String.ofList root, String.ofList rest, defaultOctave⟩

/-- The parts of a text that is a chord symbol. -/
def parts? (v : Vocabulary α) (symbol : List Char) : Option ChordSymbol :=
  match rootOf? symbol with
  | none => none
  | some (root, rest) => if rest.all Text.isWordChar then some (divide v root rest) else none

/-- Any other text is read as the fallback. -/
theorem ofText_eq (v : Vocabulary α) (symbol : List Char) :
    ofText v symbol = (parts? v symbol).getD fallback := by
  unfold ofText parts?
  cases rootOf? symbol with
  | none => rfl
  | some parts =>
    obtain ⟨root, rest⟩ := parts
    dsimp only
    by_cases hword : rest.all Text.isWordChar = true
    · rw [hword]
      dsimp only [divide]
      cases octaveOf? v rest <;> rfl
    · rw [Bool.not_eq_true] at hword
      rw [hword]
      rfl

theorem parts?_of_rootOf? {v : Vocabulary α} {symbol root rest : List Char}
    (hroot : rootOf? symbol = some (root, rest)) (hrest : ∀ c ∈ rest, Text.isWordChar c = true) :
    parts? v symbol = some (divide v root rest) := by
  unfold parts?
  rw [hroot]
  exact if_pos (List.all_eq_true.mpr hrest)

theorem ofText_of_rootOf? {v : Vocabulary α} {symbol root rest : List Char}
    (hroot : rootOf? symbol = some (root, rest)) (hrest : ∀ c ∈ rest, Text.isWordChar c = true) :
    ofText v symbol = divide v root rest := by
  rw [ofText_eq, parts?_of_rootOf? hroot hrest, Option.getD_some]

/-- A symbol says where its parts come from: all of the rest is the quality, or all but a digit. -/
theorem divide_cases (v : Vocabulary α) (root rest : List Char) :
    divide v root rest = ⟨String.ofList root, String.ofList rest, 4⟩ ∧ octaveOf? v rest = none ∨
      ∃ quality octave, divide v root rest = ⟨String.ofList root, String.ofList quality, octave⟩ ∧
        octave < 10 ∧ rest = quality ++ [Nat.digitChar octave] ∧ isKnown v quality = true ∧
        isKnown v rest = false := by
  unfold divide
  cases hoctave : octaveOf? v rest with
  | none => exact .inl ⟨rfl, rfl⟩
  | some taken => exact .inr ⟨taken.1, taken.2, rfl, octaveOf?_eq_some hoctave⟩

/-- **A chord symbol is split without loss.** Every token is a chord symbol. With its letter in
upper case it is the root and the quality, and the octave is the fourth; or it is the root, the
quality and the digit of the octave, and then the vocabulary has the quality, but not with the
digit. Root and quality without the octave are read as the same root and quality, in the fourth
octave. -/
theorem split_without_loss (v : Vocabulary α) {token : List Char} (h : IsToken token) :
    ∃ symbol, parts? v token = some symbol ∧ ofText v token = symbol ∧
      (token.modifyHead Char.toUpper = symbol.root.toList ++ symbol.quality.toList ∧
          symbol.octave = 4 ∨
        token.modifyHead Char.toUpper
            = symbol.root.toList ++ symbol.quality.toList ++ [Nat.digitChar symbol.octave] ∧
          symbol.octave < 10 ∧ isKnown v symbol.quality.toList = true ∧
          isKnown v (symbol.quality.toList ++ [Nat.digitChar symbol.octave]) = false) ∧
      ofText v (symbol.root.toList ++ symbol.quality.toList)
        = ⟨symbol.root, symbol.quality, 4⟩ := by
  obtain ⟨root, rest, hroot, hwhole, hword, hagain⟩ := h.exists_root
  refine ⟨divide v root rest, parts?_of_rootOf? hroot hword, ofText_of_rootOf? hroot hword, ?_⟩
  rw [← hwhole]
  obtain ⟨heq, hnone⟩ | ⟨quality, octave, heq, hoctave, rfl, hknown, hunknown⟩ :=
    divide_cases v root rest
  · simp only [heq, String.toList_ofList]
    refine ⟨.inl ⟨trivial, trivial⟩, ?_⟩
    rw [ofText_of_rootOf? (hagain rest (List.prefix_refl rest)) hword, heq]
  · simp only [heq, String.toList_ofList]
    refine ⟨.inr ⟨(List.append_assoc ..).symm, hoctave, hknown, hunknown⟩, ?_⟩
    have hquality : ∀ c ∈ quality, Text.isWordChar c = true :=
      fun c hc => hword c (List.mem_append_left _ hc)
    rw [ofText_of_rootOf? (hagain quality (List.prefix_append ..)) hquality, divide,
      octaveOf?_of_isKnown hknown]
    rfl

/-- A letter that may be taken for an accidental, an accidental, a quality and an octave. -/
theorem split_without_loss_flatMinor :
    IsToken "bbm3".toList ∧
      ofText (Vocabulary.standard : Vocabulary Float) "bbm3".toList = ⟨"Bb", "m", 3⟩ ∧
      ofText (Vocabulary.standard : Vocabulary Float) "Bbm".toList = ⟨"Bb", "m", 4⟩ := by
  have htoken : IsToken "bbm3".toList :=
    isToken_append 'b' ['b'] ['m', '3'] (by decide) (by decide) (List.all_eq_true.mp (by decide))
  obtain ⟨symbol, hparts, hread, -, hagain⟩ :=
    split_without_loss (Vocabulary.standard : Vocabulary Float) htoken
  have hsymbol : parts? (Vocabulary.standard : Vocabulary Float) "bbm3".toList
      = some ⟨"Bb", "m", 3⟩ := by
    decide +kernel
  rw [hsymbol] at hparts
  cases hparts
  exact ⟨htoken, hread, hagain⟩

end ChordSymbol

end LeadSheet
