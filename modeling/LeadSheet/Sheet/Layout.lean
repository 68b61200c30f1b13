import LeadSheet.Text.Scan
import LeadSheet.Text.Case

/-!
# The lines of a sheet

A sheet is meant to have a header field, a section marker or a track on each line. Two steps bring
a text into that form before it is read.

* **Repair.** Text generators like to put a whole sheet on one line. `repair` puts a line break
  before every structural keyword and every instrument marker that stands behind blanks without
  one. It only inserts, and leaves a text alone that already has line breaks enough or has no
  section at all.
* **Cleaning.** `clean` trims the lines and drops what is not music: empty lines, code fences and
  comments. A comment that mentions a section is kept, so that commenting out a section's header
  does not merge its tracks into the section before.
-/

namespace LeadSheet.Sheet

/-- The keywords that start a line. -/
def keywords : List String := ["SONG:", "TEMPO:", "KEY:", "SECTION:"]

/-- The instruments that start a track line, in one-line sheets. -/
def instrumentMarkers : List String :=
  ["GUITAR", "PIANO", "BASS", "DRUMS", "STRINGS", "PAD", "LEAD", "SYNTH", "ORGAN", "BRASS", "CHOIR",
    "FLUTE", "VIOLIN", "CELLO"]

/-- The keyword of a section. -/
def sectionKeyword : List Char := "SECTION:".toList

/-- A text with this many line breaks needs no repair. -/
def enoughLineBreaks : Nat := 5

/-! ## Repair -/

/-- What stands right before a place in a text: something else than a blank, blanks without a line
break, or blanks with one. -/
inductive Gap where
  | none
  | unbroken
  | broken
  deriving DecidableEq, Repr

/-- What stands before the place behind a character. -/
def Gap.behind (gap : Gap) (c : Char) : Gap :=
  if !Text.isBlank c then .none
  else if c = '\n' ∨ gap = .broken then .broken
  else .unbroken

/-- Inserts a text at every place where a label starts behind blanks without a line break. -/
def breakBefore (isLabel : List Char → Bool) (inserted : List Char) (gap : Gap) :
    List Char → List Char
  | [] => []
  | c :: rest =>
    let here := breakBefore isLabel inserted (gap.behind c) rest
    if gap = .unbroken && isLabel (c :: rest) then inserted ++ c :: here else c :: here

/-- Whether a structural keyword starts here. -/
def startsKeyword (text : List Char) : Bool :=
  keywords.any fun word => Text.startsWithLabel word.toList text

/-- Whether an instrument marker with its colon starts here. -/
def startsMarker (text : List Char) : Bool :=
  instrumentMarkers.any fun word => Text.startsWithLabel (word ++ ":").toList text

/-- Whether the text has a section in upper case. -/
def mentionsSection (text : List Char) : Bool :=
  Text.hasWord sectionKeyword (Text.toUpper text)

/-- Breaks a text whose lines were run together: keywords first, then instruments, which are also
indented. -/
def repair (text : List Char) : List Char :=
  if enoughLineBreaks ≤ Text.occurrences '\n' text || !mentionsSection text then text
  else
    breakBefore startsMarker ['\n', ' ', ' '] .none (breakBefore startsKeyword ['\n'] .none text)

/-! ## Cleaning -/

/-- The mark of a comment that runs to the end of its line. -/
def commentMark : List Char := ['/', '/']

/-- Whether a line is a comment. -/
def isComment (line : List Char) : Bool :=
  ['#'].isPrefixOf line || commentMark.isPrefixOf line || ['*'].isPrefixOf line

/-- What is left of a line; nothing if it holds no music. -/
def cleanLine? (line : List Char) : Option (List Char) :=
  let trimmed := Text.trim line
  if trimmed = [] || ['`', '`', '`'].isPrefixOf trimmed then none
  else if isComment trimmed && !Text.hasWord "SECTION".toList (Text.toUpper trimmed) then none
  else
    let kept := if Text.hasWord commentMark trimmed then Text.trim (Text.before commentMark trimmed)
      else trimmed
    if kept = [] then none else some kept

/-- The lines of a text that hold music, trimmed. -/
def clean (text : List Char) : List Char :=
  Text.join ['\n'] ((Text.split '\n' text).filterMap cleanLine?)

end LeadSheet.Sheet
