import LeadSheet.Sheet.Header
import LeadSheet.Sheet.Pattern
import LeadSheet.Sheet.Warning
import LeadSheet.Text.Units

/-!
# Reading a sheet

`read` turns a text into a score, or says why it cannot. The text is repaired and cleaned, its
header fields are read from the whole of it, and it is cut before every section keyword; each piece
with a section in it gives a section, in order. Sections share the key and tempo of the song.

Nothing a text can hold makes reading fail, apart from there being no text or no section. Warnings
come in the order in which their causes stand in the text, and a list of progress notes says what
was seen on the way.
-/

namespace LeadSheet.Sheet

variable {α : Type} [Scalar α]

/-! ## Sections -/

/-- Numbers read from digits where a positive one is needed. -/
structure Counted where
  value : Nat
  /-- Whether the digits gave no positive number, so that the value is a substitute. -/
  replaced : Bool
  deriving DecidableEq, Repr

/-- The number digits write, or a substitute if there are none or the number is zero. -/
def counted (digits : Option (List Char)) (substitute : Nat) : Counted :=
  match digits with
  | none => ⟨substitute, false⟩
  | some digits =>
    let value := Numeral.ofDigits 10 digits
    if value = 0 then ⟨substitute, true⟩ else ⟨value, false⟩

/-- What the lines of a section have given so far. -/
structure Body (α : Type) where
  tracks : List (Track α)
  drums : Option (DrumTrack α)
  warnings : List Warning
  deriving DecidableEq, Repr

namespace Body

/-- Nothing yet. -/
def empty : Body α := ⟨[], none, []⟩

/-- Adds the hits of a drum line; all drum lines of a section feed one drum track. -/
def addDrums (name : String) (bars : Nat) (body : Body α) (pattern : List Char) : Body α :=
  let read : DrumPattern α := DrumPattern.ofText pattern
  let drums := body.drums.getD ⟨Default.drumTrackName, [], Default.trackVolume⟩
  let warnings := if bars < read.barsUsed then [Warning.longDrumPattern name read.barsUsed bars]
    else []
  { body with
    drums := some { drums with hits := drums.hits ++ read.hits }
    warnings := body.warnings ++ warnings }

/-- Adds the track of an instrument line, unless its instrument is the drum kit. -/
def addTrack (v : Vocabulary α) (name : String) (bars : Nat) (body : Body α)
    (word pattern : List Char) : Body α :=
  let instrument := String.ofList (Text.toLower word)
  let track := String.ofList (titleCase word)
  match v.voice instrument with
  | .percussion =>
    { body with warnings := body.warnings ++ [Warning.percussionTrack name track] }
  | .program _ =>
    let read := PitchedPattern.ofText v pattern
    let warnings := if bars < read.barsUsed then [Warning.longPattern name track read.barsUsed bars]
      else []
    { body with
      tracks := body.tracks ++
        [⟨track, instrument, read.notes, read.chords, Default.trackVolume, Default.trackPan⟩]
      warnings := body.warnings ++ warnings }

/-- Adds what a line gives. -/
def addLine (v : Vocabulary α) (name : String) (bars : Nat) (body : Body α) (line : Line) :
    Body α :=
  match line with
  | .drums pattern => body.addDrums name bars pattern
  | .instrument word pattern => body.addTrack v name bars word pattern
  | .header _ => body
  | .unrecognized _ => body

end Body

/-- A section that was read, with its warnings. Its place in the song is not known yet. -/
structure SectionReading (α : Type) where
  read : Section α
  warnings : List Warning
  deriving DecidableEq, Repr

/-- The lines of a trimmed piece of text; the first one is the section's header. -/
def pieceLines (piece : List Char) : List Char × List (List Char) :=
  match Text.split '\n' (Text.trim piece) with
  | header :: lines => (header, lines)
  | [] => ([], [])

/-- Reads a piece of text as a section. -/
def readSection (v : Vocabulary α) (key : String) (tempo : α) (piece : List Char) :
    SectionReading α :=
  let (header, lines) := pieceLines piece
  let name := sectionNameOf header
  let bars := counted (barDigits? header) Default.sectionBars
  let texts := (lines.map Text.trim).filter (· ≠ [])
  let body := (texts.map Line.ofText).foldl (Body.addLine v name bars.value) Body.empty
  let before := if bars.replaced then [Warning.emptySection name bars.value] else []
  let after := if body.tracks = [] ∧ body.drums = none then [Warning.noTracks name] else []
  { read :=
      { name, bars := Scalar.ofNat bars.value, startBar := 0, key := some key, tempo := some tempo
        tracks := body.tracks, drums := body.drums }
    warnings := before ++ body.warnings ++ after }

/-! ## Whole sheets -/

/-- The pieces of a text, cut before every section keyword. The first piece holds what stands
before the first keyword, and may be empty. -/
def pieces : List Char → List (List Char)
  | [] => [[]]
  | c :: rest =>
    match pieces rest with
    | [] => [[c]]
    | piece :: others =>
      if Text.startsWithLabel sectionKeyword (c :: rest) then [] :: (c :: piece) :: others
      else (c :: piece) :: others

/-- The pieces that have a section in them. -/
def sectionPieces (text : List Char) : List (List Char) := (pieces text).filter mentionsSection

/-- A sheet that was read. -/
structure Reading (α : Type) where
  outcome : Except Unreadable (Score α)
  warnings : List Warning
  /-- What was seen on the way. -/
  progress : List String

/-- How much of the cleaned text a progress note shows, in code units. -/
def previewUnits : Nat := 500

/-- The progress notes on the text itself. -/
def textNotes (repaired cleaned : List Char) : List String :=
  ["[parser] Newlines after repair: " ++ toString (Text.occurrences '\n' repaired),
    "[parser] Cleaned:\n" ++ String.ofList (Text.takeUnits previewUnits cleaned) ++ "..."]

/-- The progress note on a section. -/
def sectionNote (s : Section α) : String :=
  "[parser] Section: " ++ s.name ++ ", " ++ toString s.tracks.length ++ " tracks"

/-- Reads a cleaned text that is not blank. -/
def readCleaned (v : Vocabulary α) (cleaned : List Char) : Reading α :=
  let tempoDigits := tempoDigits? cleaned
  let counted := counted tempoDigits Default.tempo
  let tempo : α := Scalar.ofNat counted.value
  let key := keyOf cleaned
  let before := if counted.replaced then
      [Warning.unplayableTempo (String.ofList (tempoDigits.getD [])) counted.value] else []
  let sections := (sectionPieces cleaned).map (readSection v key tempo)
  let score : Score α :=
    { title := titleOf cleaned, tempo, key, timeSignature := Default.timeSignature
      sections := placeSections (sections.map (·.read)) }
  { outcome := if sections.isEmpty then .error .noSections else .ok score
    warnings := before ++ sections.flatMap (·.warnings)
    progress := sections.map fun s => sectionNote s.read }

/-- Reads a sheet. -/
def read (v : Vocabulary α) (text : String) : Reading α :=
  let repaired := repair text.toList
  let cleaned := clean repaired
  let notes := textNotes repaired cleaned
  if Text.isBlankText cleaned then
    { outcome := .error .noContent, warnings := [], progress := notes }
  else
    let reading := readCleaned v cleaned
    { reading with progress := notes ++ reading.progress }

end LeadSheet.Sheet
