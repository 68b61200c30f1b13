import LeadSheet.Sheet.Entry
import LeadSheet.Harmony.Chord
import LeadSheet.Number.Numeral

/-!
# Patterns

A pattern is written bar by bar with bars between them. A slot of the pattern is always one bar of
four beats, whatever it holds: entries that fill less leave the rest of the bar silent, and entries
that fill more run on into the next one.

* In a melodic pattern the entries of a slot follow each other from the slot's first beat. Note
  tokens give notes, other words chords.
* In a drum pattern each entry names the beats of its drum, counted from one, or asks for all
  eighths or sixteenths of the bar.
-/

namespace LeadSheet.Sheet

variable {α : Type} [Scalar α]

/-- Whether a trimmed slot is silent. -/
def isRest (slot : List Char) : Bool := slot = [] || slot = ['_']

/-- The trimmed slots of a pattern. -/
def slotsOf (pattern : List Char) : List (List Char) :=
  (Text.split '|' pattern).map Text.trim

/-! ## Melodic patterns -/

/-- How long an entry lasts, in beats, and how loud it is. -/
structure Params (α : Type) where
  duration : α
  velocity : α
  deriving DecidableEq, Repr

namespace Params

/-- One beat, at the velocity of a note without dynamics. -/
def default : Params α := ⟨1, Default.noteVelocity⟩

/-- Applies a code: a duration, else a dynamic, else nothing. -/
def apply (v : Vocabulary α) (p : Params α) (code : String) : Params α :=
  match v.durations.lookup code with
  | some duration => { p with duration }
  | none =>
    match v.dynamics.lookup code with
    | some velocity => { p with velocity }
    | none => p

/-- Reads the codes of an entry, separated by commas; later codes win over earlier ones. -/
def ofText (v : Vocabulary α) (argument : List Char) : Params α :=
  let codes := (Text.split ',' argument).map fun code =>
    String.ofList (Text.toLower (Text.trim code))
  codes.foldl (apply v) default

end Params

/-- What a melodic entry gives. -/
inductive Sounding (α : Type) where
  | note (note : Note α)
  | chord (chord : Chord α)
  deriving DecidableEq, Repr

/-- The note or chord of an entry that starts at a beat. -/
def soundingOf (v : Vocabulary α) (word : List Char) (start : α) (p : Params α) : Sounding α :=
  match NoteToken.ofText? v word with
  | some token => .note ⟨token.pitch, start, p.duration, p.velocity⟩
  | none =>
    let symbol := ChordSymbol.ofText v word
    .chord ⟨symbol.root, symbol.quality, Scalar.ofNat symbol.octave, start, p.duration, p.velocity⟩

/-- Lays entries out one after the other: each starts so far behind the bar's first beat as the
entries before it last. -/
def layOut (v : Vocabulary α) (barStart offset : α) : List Entry → List (Sounding α)
  | [] => []
  | e :: rest =>
    let p := Params.ofText v e.argument
    soundingOf v e.word (barStart + offset) p :: layOut v barStart (offset + p.duration) rest

/-- What a trimmed slot of a melodic pattern gives, the bar starting at a beat. -/
def slotSoundings (v : Vocabulary α) (barStart : α) (slot : List Char) : List (Sounding α) :=
  if isRest slot then [] else layOut v barStart 0 (entries pitchedWord? slot)

/-- The first beat of the bar with this index. -/
def barStart (index : Nat) : α := Scalar.ofNat (beatsPerBar * index)

/-- One more than the last index at which the list has something that is not empty. -/
def lastUsed {β : Type} (slots : List (List β)) : Nat :=
  (slots.reverse.dropWhile (·.isEmpty)).length

/-- A melodic pattern as it was read. -/
structure PitchedPattern (α : Type) where
  notes : List (Note α)
  chords : List (Chord α)
  /-- How many bars it reaches over, up to the last one with an entry. -/
  barsUsed : Nat
  deriving DecidableEq, Repr

/-- Reads a melodic pattern. -/
def PitchedPattern.ofText (v : Vocabulary α) (pattern : List Char) : PitchedPattern α :=
  let slots := (slotsOf pattern).mapIdx fun index slot => slotSoundings v (barStart index) slot
  { notes := slots.flatten.filterMap fun s => match s with | .note n => some n | .chord _ => none
    chords := slots.flatten.filterMap fun s => match s with | .chord c => some c | .note _ => none
    barsUsed := lastUsed slots }

/-! ## Drum patterns -/

/-- The beats an entry asks for, counted from zero, and how loud its hits are. -/
structure Beats (α : Type) where
  offsets : List α
  velocity : α
  deriving DecidableEq, Repr

namespace Beats

/-- The beats that divide a bar evenly: so many of them, each `num / 10 ^ places` behind the one
before. -/
def evenly (count num places : Nat) : List α :=
  (List.range count).map fun i => Scalar.ofDecimal (i * num) places

/-- Reads a beat, a decimal of at least one, and counts it from zero. -/
def beat? (text : List Char) : Option α :=
  let whole := text.takeWhile Char.isDigit
  let fraction? := match text.dropWhile Char.isDigit with
    | [] => some []
    | '.' :: fraction =>
      if fraction ≠ [] ∧ fraction.all Char.isDigit then some fraction else none
    | _ => none
  match fraction? with
  | some fraction =>
    if whole = [] then none
    else
      let beat : α := Scalar.ofDecimal (Numeral.ofDigits 10 (whole ++ fraction)) fraction.length
      if beat < (1 : α) then none else some (beat - (1 : α))
  | none => none

/-- Reads the argument of a drum: all eighths, all sixteenths, or beats separated by commas. None if
anything among the beats is not a beat of the bar. -/
def ofText? (argument : List Char) : Option (Beats α) :=
  let lower := Text.toLower (Text.trim argument)
  let name := String.ofList lower
  if name = "8ths" ∨ name = "eighths" then some ⟨evenly 8 5 1, Scalar.ofDecimal 7 1⟩
  else if name = "16ths" ∨ name = "sixteenths" then some ⟨evenly 16 25 2, Scalar.ofDecimal 6 1⟩
  else
    let listed := ((Text.split ',' lower).map Text.trim).filter (· ≠ [])
    (listed.mapM beat?).map fun offsets => ⟨offsets, Default.hitVelocity⟩

end Beats

/-- The hits of an entry in a bar. -/
def entryHits (barStart : α) (e : Entry) : List (DrumHit α) :=
  match Beats.ofText? e.argument with
  | none => []
  | some beats =>
    let drum := String.ofList (Text.toLower e.word)
    beats.offsets.map fun offset => ⟨drum, barStart + offset, beats.velocity⟩

/-- What a trimmed slot of a drum pattern gives, the bar starting at a beat. -/
def slotHits (barStart : α) (slot : List Char) : List (DrumHit α) :=
  if isRest slot then [] else (entries drumWord? slot).flatMap (entryHits barStart)

/-- A drum pattern as it was read. -/
structure DrumPattern (α : Type) where
  hits : List (DrumHit α)
  /-- How many bars it reaches over, up to the last one with a hit. -/
  barsUsed : Nat
  deriving DecidableEq, Repr

/-- Reads a drum pattern. -/
def DrumPattern.ofText (pattern : List Char) : DrumPattern α :=
  let slots := (slotsOf pattern).mapIdx fun index slot => slotHits (barStart index) slot
  { hits := slots.flatten, barsUsed := lastUsed slots }

end LeadSheet.Sheet
