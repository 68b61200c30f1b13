import LeadSheet.Harmony.Pitch
import LeadSheet.Score.Basic

/-!
# Chord symbols and the pitches of a chord

A chord symbol is a root and a quality, and its last digit may be an octave: it is one if the
quality is known without the digit but not with it, and the digit is not an added sixth or ninth.
So `Am7` is a minor seventh and `Am3` a minor triad in octave 3.

The intervals of a quality come from the vocabulary. A quality that is not there is recognised by
what it contains, and one that contains nothing familiar is sounded as a major triad.
-/

namespace LeadSheet

variable {α : Type} [Scalar α]

/-- The parts of a chord symbol. -/
structure ChordSymbol where
  root : String
  quality : String
  octave : Nat
  deriving DecidableEq, Repr

namespace ChordSymbol

/-- The octave of a chord that names none. -/
def defaultOctave : Nat := 4

/-- What a text that is no chord symbol is read as: C major. -/
def fallback : ChordSymbol := ⟨"C", "", defaultOctave⟩

/-- Whether the vocabulary has the quality; case does not matter. -/
def isKnown (v : Vocabulary α) (quality : List Char) : Bool :=
  (v.qualities.lookup (String.ofList (Text.toLower quality))).isSome

/-- Whether a quality ends in an added sixth or ninth: such a digit at its start or right behind a
letter. -/
def endsInExtension (quality : List Char) : Bool :=
  match quality.reverse with
  | last :: rest =>
    (last == '6' || last == '9') &&
      match rest with
      | [] => true
      | c :: _ => c.isAlpha
  | [] => false

/-- The octave digit at the end of a quality, with the quality before it, if there is one. -/
def octaveOf? (v : Vocabulary α) (quality : List Char) : Option (List Char × Nat) :=
  match quality.getLast? with
  | none => none
  | some last =>
    let shorter := quality.dropLast
    if last.isDigit && !endsInExtension quality && !isKnown v quality && isKnown v shorter then
      some (shorter, last.toNat - '0'.toNat)
    else none

/-- Reads a chord symbol. -/
def ofText (v : Vocabulary α) (symbol : List Char) : ChordSymbol :=
  match rootOf? symbol with
  | none => fallback
  | some (root, quality) =>
    if !quality.all Text.isWordChar then fallback
    else match octaveOf? v quality with
      | some (shorter, octave) => ⟨String.ofList root, String.ofList shorter, octave⟩
      | none => ⟨String.ofList root, String.ofList quality, defaultOctave⟩

end ChordSymbol

/-! ## Sounding a chord -/

/-- The intervals of a quality in lower case that the vocabulary does not have, by the first of
these words that it contains. -/
def familiarIntervals (quality : List Char) : List Nat :=
  let has (word : String) : Bool := Text.hasWord word.toList quality
  if has "maj7" then [0, 4, 7, 11]
  else if has "maj" then [0, 4, 7]
  else if has "m7" || has "min7" then [0, 3, 7, 10]
  else if "m".toList.isPrefixOf quality || has "min" then [0, 3, 7]
  else if has "sus4" then [0, 5, 7]
  else if has "sus2" then [0, 2, 7]
  else if has "dim7" then [0, 3, 6, 9]
  else if has "dim" then [0, 3, 6]
  else if has "aug" then [0, 4, 8]
  else if has "7" then [0, 4, 7, 10]
  else [0, 4, 7]

/-- The intervals of a quality; case does not matter. -/
def intervalsOf (v : Vocabulary α) (quality : String) : List α :=
  let lower := Text.toLower quality.toList
  match v.qualities.lookup (String.ofList lower) with
  | some intervals => intervals
  | none => (familiarIntervals lower).map Scalar.ofNat

/-- The numbers without the ones that stood before. -/
def distinct (numbers : List α) : List α :=
  numbers.foldl (fun kept x => if kept.any (Scalar.same x) then kept else kept ++ [x]) []

/-- The MIDI pitches of a root, a quality and an octave, root first. Tones that fall on one pitch at
the end of the range are sounded once. -/
def chordPitches (v : Vocabulary α) (root quality : String) (octave : α) : List α :=
  let rootPitch := pitchOf v root octave
  distinct ((intervalsOf v quality).map fun interval => clampPitch (rootPitch + interval))

/-- The MIDI pitches of a chord. -/
def Chord.pitches (v : Vocabulary α) (c : Chord α) : List α :=
  chordPitches v c.root c.quality c.octave

end LeadSheet
