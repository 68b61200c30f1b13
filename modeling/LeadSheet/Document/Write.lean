import LeadSheet.Json.Printer
import LeadSheet.Score.Basic
import LeadSheet.Schema.Version

/-!
# Scores as documents

A score is stored as a JSON object, with the fields in a fixed order. What a section does not have,
its key, tempo or drums, is left out.
-/

namespace LeadSheet.Document

/-- A note as an object. -/
def ofNote (n : Note Float) : Json :=
  .object [("pitch", .number n.pitch), ("start", .number n.start), ("duration", .number n.duration),
    ("velocity", .number n.velocity)]

/-- A chord as an object. -/
def ofChord (c : Chord Float) : Json :=
  .object [("root", .string c.root), ("quality", .string c.quality), ("octave", .number c.octave),
    ("start", .number c.start), ("duration", .number c.duration), ("velocity", .number c.velocity)]

/-- A track as an object. -/
def ofTrack (t : Track Float) : Json :=
  .object [("name", .string t.name), ("instrument", .string t.instrument),
    ("notes", .array (t.notes.map ofNote)), ("chords", .array (t.chords.map ofChord)),
    ("volume", .number t.volume), ("pan", .number t.pan)]

/-- A drum hit as an object. -/
def ofHit (h : DrumHit Float) : Json :=
  .object [("drum", .string h.drum), ("start", .number h.start), ("velocity", .number h.velocity)]

/-- A drum track as an object. -/
def ofDrums (d : DrumTrack Float) : Json :=
  .object [("name", .string d.name), ("hits", .array (d.hits.map ofHit)),
    ("volume", .number d.volume)]

/-- A field that is there if its value is. -/
def present {β : Type} (name : String) (write : β → Json) : Option β → Json.Fields
  | some value => [(name, write value)]
  | none => []

/-- A section as an object. -/
def ofSection (s : Section Float) : Json :=
  .object
    ([("name", .string s.name), ("bars", .number s.bars), ("start_bar", .number s.startBar),
        ("tracks", .array (s.tracks.map ofTrack))]
      ++ present "key" Json.string s.key ++ present "tempo" Json.number s.tempo
      ++ present "drums" ofDrums s.drums)

/-- The fields of a score's document. -/
def scoreFields (s : Score Float) : Json.Fields :=
  [("_version", .string Schema.currentVersion), ("title", .string s.title),
    ("tempo", .number s.tempo), ("key", .string s.key), ("time_signature", .string s.timeSignature),
    ("sections", .array (s.sections.map ofSection))]

/-- The document of a score. -/
def ofScore (s : Score Float) : Json := .object (scoreFields s)

/-- The layout that a request for indentation gives. One of nothing or less gives a single line, any
other one lines, and its integer part says by how many blanks they are indented, at most ten: a
request of less than one gives lines without blanks. -/
def layoutOf (requested : Float) : Json.Layout :=
  if (0 : Float) < requested then
    .lines (if (10 : Float) ≤ requested then 10 else (Scalar.truncate requested).toNat)
  else .oneLine

/-- The layout of stored documents. -/
def defaultLayout : Json.Layout := .lines 2

/-- The text of a score's document. -/
def text (s : Score Float) (layout : Json.Layout) : String := (ofScore s).text layout

end LeadSheet.Document
