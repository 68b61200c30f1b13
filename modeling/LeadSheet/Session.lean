import LeadSheet.Document.File
import LeadSheet.Midi.Export
import LeadSheet.Midi.Reader
import LeadSheet.Score.Edit
import LeadSheet.Sheet.Reading

/-!
# Sessions

A session holds what its user is working on: a score, and what was last made of it, a document, the
document's text and a MIDI file. Each of these stays as it was made when the score is edited
afterwards. A step that needs something the session does not hold is refused, and a step that fails
leaves the session as it was.
-/

namespace LeadSheet

/-- What a session holds. -/
structure Session where
  score? : Option (Score Float) := none
  document? : Option Json := none
  text? : Option String := none
  file? : Option (List UInt8) := none

namespace Session

/-- Why a step failed. -/
inductive Failure where
  /-- The session does not hold what the step needs. -/
  | nothingHeld
  | notLoaded (error : Document.LoadError)
  | notExported (error : Midi.ExportError Float)
  | notReadable (error : Midi.ReadError)

/-- What is held, or the refusal. -/
def need {β : Type} (held : Option β) : Except Failure β :=
  match held with
  | some value => .ok value
  | none => .error .nothingHeld

/-- The score that is held. -/
def score (s : Session) : Except Failure (Score Float) := need s.score?

/-- The document that is held. -/
def document (s : Session) : Except Failure Json := need s.document?

/-! ## Where scores come from -/

/-- Holds a score. -/
def hold (s : Session) (score : Score Float) : Session := { s with score? := some score }

/-- Reads a sheet. Its score is held; none is held if the sheet cannot be read. -/
def readSheet (s : Session) (v : Vocabulary Float) (text : String) :
    Sheet.Reading Float × Session :=
  let reading := Sheet.read v text
  (reading, { s with score? := reading.outcome.toOption })

/-- Holds a score that was loaded. -/
def holdLoaded (s : Session) (loaded : Document.Loaded) :
    Except Failure (Score Float × Session) :=
  match loaded.outcome with
  | .ok score => .ok (score, s.hold score)
  | .error error => .error (.notLoaded error)

/-- Loads the score of the document that is held. -/
def loadDocument (s : Session) : Except Failure (Score Float × Session) := do
  let document ← s.document
  s.holdLoaded (Document.load Schema.Registry.standard {} document)

/-- Loads the score of the text that is held. -/
def loadText (s : Session) : Except Failure (Score Float × Session) := do
  let text ← need s.text?
  s.holdLoaded (Document.loadText Schema.Registry.standard {} text.toList)

/-! ## Edits -/

/-- Changes the score that is held. -/
def edit (s : Session) (change : Score Float → Score Float) :
    Except Failure (Score Float × Session) := do
  let score ← s.score
  return (change score, s.hold (change score))

/-- Gives a track another volume or pan. -/
def mix (s : Session) (sectionIndex trackIndex : Nat) (volume pan : Option Float) :
    Except Failure (Track Float × Session) := do
  let score ← s.score
  let (track, score) ← need (score.mix? sectionIndex trackIndex volume pan)
  return (track, s.hold score)

/-- Gives a section's drums another volume. -/
def setDrumVolume (s : Session) (sectionIndex : Nat) (volume : Float) : Except Failure Session := do
  let score ← s.score
  let score ← need (score.setDrumVolume? sectionIndex volume)
  return s.hold score

/-! ## What is made of a score -/

/-- Makes the document of the score. -/
def makeDocument (s : Session) : Except Failure (Json × Session) := do
  let score ← s.score
  let document := Document.ofScore score
  return (document, { s with document? := some document })

/-- Makes the text of the score's document. -/
def makeText (s : Session) (layout : Json.Layout) : Except Failure (String × Session) := do
  let score ← s.score
  let text := Document.text score layout
  return (text, { s with text? := some text })

/-- Makes a MIDI file of the score. -/
def makeFile (s : Session) (v : Vocabulary Float) (options : Midi.ExportOptions Float) :
    Except Failure (Midi.Exported Float × Session) := do
  let score ← s.score
  match Midi.exportScore v options score with
  | .ok exported => return (exported, { s with file? := some exported.bytes })
  | .error error => throw (.notExported error)

/-- Reads the MIDI file that is held. -/
def heldFile (s : Session) : Except Failure Midi.File := do
  let bytes ← need s.file?
  match Midi.File.ofBytes bytes with
  | .ok file => return file
  | .error error => throw (.notReadable error)

end Session

end LeadSheet
