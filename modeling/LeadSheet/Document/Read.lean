import LeadSheet.Json.Reader
import LeadSheet.Score.Basic
import LeadSheet.Document.Complaint

/-!
# Reading documents

Reading checks the version of a document, migrates it unless that is turned off, and then builds
the score field by field. A field that is missing or `null` takes its default if it has one;
everything else must have the kind the score needs. The first value that does not is reported with
its path; fields are read in a fixed order, the order in which they are listed here.
-/

namespace LeadSheet.Document

open Json (Fields)

/-- An object that is read, with the fields that stand in for those it does not have. -/
structure Record where
  fields : Fields
  standIns : Fields := []

namespace Record

/-- The value of a field; `null` counts as no value. -/
def get? (r : Record) (name : String) : Option Json :=
  match (r.fields.get? name).or (r.standIns.get? name) with
  | some .null => none
  | value => value

end Record

variable {β : Type}

/-- The complaint that a field breaks a rule. -/
def complain (path : Path) (name : String) (rule : Rule) : Except Complaint β :=
  .error ⟨path ++ [.field name], rule⟩

/-- A value as an object. -/
def asRecord (value : Json) (path : Path) : Except Complaint Record :=
  match value with
  | .object fields => .ok { fields }
  | _ => .error ⟨path, .object⟩

/-- A finite number; the default, if there is one, where no value is. -/
def number (r : Record) (path : Path) (name : String) (default? : Option Float := none) :
    Except Complaint Float :=
  match r.get? name, default? with
  | some (.number x), _ => if Scalar.isFinite x then .ok x else complain path name .number
  | some _, _ => complain path name .number
  | none, some default => .ok default
  | none, none => complain path name .number

/-- A finite number above zero. -/
def positive (r : Record) (path : Path) (name : String) (default? : Option Float := none) :
    Except Complaint Float := do
  let x ← number r path name default?
  if x ≤ 0 then complain path name .positiveNumber else return x

/-- A string; the default, if there is one, where no value is. -/
def string (r : Record) (path : Path) (name : String) (default? : Option String := none) :
    Except Complaint String :=
  match r.get? name, default? with
  | some (.string text), _ => .ok text
  | some _, _ => complain path name .string
  | none, some default => .ok default
  | none, none => complain path name .string

/-- Reads a field that may have no value. -/
def optional (r : Record) (name : String) (read : Except Complaint β) :
    Except Complaint (Option β) :=
  if (r.get? name).isSome then read.map some else .ok none

/-- Reads the items of a list, the first of which has an index, each with the path to it. -/
def itemsFrom (read : Json → Path → Except Complaint β) (path : Path) :
    Nat → List Json → Except Complaint (List β)
  | _, [] => .ok []
  | index, value :: rest => do
    let item ← read value (path ++ [.item index])
    let items ← itemsFrom read path (index + 1) rest
    return item :: items

/-- An array, item by item; no items where no value is. -/
def list (read : Json → Path → Except Complaint β) (r : Record) (path : Path) (name : String) :
    Except Complaint (List β) :=
  match r.get? name with
  | none => .ok []
  | some (.array values) => itemsFrom read (path ++ [.field name]) 0 values
  | some _ => complain path name .array

/-! ## The parts of a score -/

def readNote (value : Json) (path : Path) : Except Complaint (Note Float) := do
  let r ← asRecord value path
  let pitch ← number r path "pitch"
  let start ← number r path "start"
  let duration ← positive r path "duration"
  let velocity ← number r path "velocity" (some Default.noteVelocity)
  return { pitch, start, duration, velocity }

def readChord (value : Json) (path : Path) : Except Complaint (Chord Float) := do
  let r ← asRecord value path
  let root ← string r path "root"
  let quality ← string r path "quality"
  let octave ← number r path "octave"
  let start ← number r path "start"
  let duration ← positive r path "duration"
  let velocity ← number r path "velocity" (some Default.noteVelocity)
  return { root, quality, octave, start, duration, velocity }

def readTrack (value : Json) (path : Path) : Except Complaint (Track Float) := do
  let r ← asRecord value path
  let name ← string r path "name"
  let instrument ← string r path "instrument"
  let notes ← list readNote r path "notes"
  let chords ← list readChord r path "chords"
  let volume ← number r path "volume" (some Default.trackVolume)
  let pan ← number r path "pan" (some Default.trackPan)
  return { name, instrument, notes, chords, volume, pan }

def readHit (value : Json) (path : Path) : Except Complaint (DrumHit Float) := do
  let r ← asRecord value path
  let drum ← string r path "drum"
  let start ← number r path "start"
  let velocity ← number r path "velocity" (some Default.hitVelocity)
  return { drum, start, velocity }

def readDrums (value : Json) (path : Path) : Except Complaint (DrumTrack Float) := do
  let r ← asRecord value path
  let name ← string r path "name" (some Default.drumTrackName)
  let hits ← list readHit r path "hits"
  let volume ← number r path "volume" (some Default.trackVolume)
  return { name, hits, volume }

/-- Reads a section that has fields standing in for missing ones. -/
def readSection (standIns : Fields) (value : Json) (path : Path) :
    Except Complaint (Section Float) := do
  let own ← asRecord value path
  let r : Record := { own with standIns }
  let name ← string r path "name"
  let bars ← positive r path "bars"
  let startBar ← number r path "start_bar" (some 0)
  let key ← optional r "key" (string r path "key")
  let tempo ← optional r "tempo" (positive r path "tempo")
  let tracks ← list readTrack r path "tracks"
  let drums ← optional r "drums"
    (readDrums ((r.get? "drums").getD .null) (path ++ [.field "drums"]))
  return { name, bars, startBar, key, tempo, tracks, drums }

/-- Reads the sections of a document, the first of which has an index. -/
def sectionsFrom (standIns : List Fields) :
    Nat → List Json → Except Complaint (List (Section Float))
  | _, [] => .ok []
  | index, value :: rest => do
    let read ← readSection (standIns.headD []) value [.field "sections", .item index]
    let others ← sectionsFrom standIns.tail (index + 1) rest
    return read :: others

/-- The sections of a document. -/
def readSections (r : Record) (standIns : List Fields) :
    Except Complaint (List (Section Float)) :=
  match r.get? "sections" with
  | none => .ok []
  | some (.array values) => sectionsFrom standIns 0 values
  | some _ => complain [] "sections" .array

/-- Reads a score from a document of the current version. -/
def readScore (d : Schema.Document) : Except Complaint (Score Float) := do
  let r : Record := { fields := d.fields }
  let title ← string r [] "title" (some Default.title)
  let tempo ← positive r [] "tempo" (some (Scalar.ofNat Default.tempo))
  let key ← string r [] "key" (some Default.key)
  let timeSignature ← string r [] "time_signature" (some Default.timeSignature)
  let sections ← readSections r d.standIns
  return { title, tempo, key, timeSignature, sections }

/-! ## Documents -/

/-- How a document is loaded. -/
structure LoadOptions where
  /-- Whether documents of other versions are refused. -/
  strict : Bool := false
  /-- Whether documents of other versions are migrated. -/
  migrate : Bool := true
  deriving DecidableEq, Repr

/-- What loading a document gave: a score or an error, and warnings either way. -/
structure Loaded where
  outcome : Except LoadError (Score Float)
  warnings : List String

/-- A value as a document whose version is a string, if it has one. -/
def versioned (value : Json) : Except Complaint Schema.Document := do
  let r ← asRecord value []
  match r.get? "_version" with
  | none => return { fields := r.fields }
  | some (.string _) => return { fields := r.fields }
  | some _ => complain [] "_version" .versionString

/-- Loads a score from a value. -/
def load (registry : Schema.Registry) (options : LoadOptions) (value : Json) : Loaded :=
  match versioned value with
  | .error complaint => ⟨.error (.malformed complaint), []⟩
  | .ok document =>
    match Schema.letIn registry ⟨options.strict, options.migrate⟩ document with
    | .error error => ⟨.error (.version error), []⟩
    | .ok admitted =>
      let warnings := admitted.warning?.toList
      match readScore admitted.document with
      | .error complaint => ⟨.error (.malformed complaint), warnings⟩
      | .ok score => ⟨.ok score, warnings⟩

/-- Loads a score from the text of a document. -/
def loadText (registry : Schema.Registry) (options : LoadOptions) (text : List Char) : Loaded :=
  match Json.ofText? text with
  | some value => load registry options value
  | none => ⟨.error .notJson, []⟩

end LeadSheet.Document
