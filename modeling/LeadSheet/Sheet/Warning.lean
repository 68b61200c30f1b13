/-!
# What is wrong with a sheet

A text that holds no sheet at all is an error. Everything else that is wrong in a sheet is passed
over or replaced, with a warning that says what was done.
-/

namespace LeadSheet.Sheet

/-- Why a text gives no score. -/
inductive Unreadable where
  /-- Nothing is left after cleaning. -/
  | noContent
  /-- No section is there. -/
  | noSections
  deriving DecidableEq, Repr

/-- The message for a text that gives no score. -/
def Unreadable.message : Unreadable → String
  | noContent => "No DSL content found"
  | noSections => "No SECTION blocks found"

/-- What was passed over or replaced. -/
inductive Warning where
  /-- A tempo of zero, given by its digits; `used` beats a minute were taken. -/
  | unplayableTempo (digits : String) (used : Nat)
  /-- A section of no bars; `used` bars were taken. -/
  | emptySection (name : String) (used : Nat)
  /-- A track whose instrument is the drum kit; the track was left out. -/
  | percussionTrack (name track : String)
  /-- A track's pattern that is longer than its section. -/
  | longPattern (name track : String) (spans bars : Nat)
  /-- A drum pattern that is longer than its section. -/
  | longDrumPattern (name : String) (spans bars : Nat)
  /-- A section with neither tracks nor drums. -/
  | noTracks (name : String)
  deriving DecidableEq, Repr

/-- The message of a warning. -/
def Warning.message : Warning → String
  | unplayableTempo digits used => "Tempo " ++ digits ++ " is not playable, using " ++ toString used
  | emptySection name used =>
    "Section \"" ++ name ++ "\" declares 0 bars, using " ++ toString used
  | percussionTrack name track =>
    "Section \"" ++ name ++ "\": " ++ track ++ " is a percussion instrument, use a DRUMS line"
  | longPattern name track spans bars =>
    "Section \"" ++ name ++ "\": " ++ track ++ " pattern spans " ++ toString spans
      ++ " bars, section has " ++ toString bars
  | longDrumPattern name spans bars =>
    "Section \"" ++ name ++ "\": drum pattern spans " ++ toString spans ++ " bars, section has "
      ++ toString bars
  | noTracks name => "Section \"" ++ name ++ "\" has no tracks"

end LeadSheet.Sheet
