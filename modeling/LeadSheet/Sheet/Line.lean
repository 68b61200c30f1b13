import LeadSheet.Text.Scan
import LeadSheet.Text.Case

/-!
# The lines of a section

Behind its header a section has labelled lines, a word and a colon before the text. The label says
what the line is: the drums, a field of the header that has been read already, or the track of an
instrument.
-/

namespace LeadSheet.Sheet

/-- The fields of a sheet's header. -/
inductive HeaderField where
  | song
  | tempo
  | key
  deriving DecidableEq, Repr

/-- The label of a header field. -/
def HeaderField.label : HeaderField → String
  | song => "SONG"
  | tempo => "TEMPO"
  | key => "KEY"

/-- A line of a section. -/
inductive Line where
  | drums (pattern : List Char)
  | instrument (word pattern : List Char)
  | header (field : HeaderField)
  /-- A line without a label; it is passed over. -/
  | unrecognized (text : List Char)
  deriving DecidableEq, Repr

namespace Line

/-- The text up to the end of the line, if there is any. -/
def restOfLine? (text : List Char) : Option (List Char) :=
  let line := text.takeWhile fun c => !Text.isLineEnd c
  if line = [] then none else some line

/-- The label of a line and the text behind its colon. -/
def labelled? (line : List Char) : Option (List Char × List Char) :=
  let word := line.takeWhile Text.isWordChar
  if word = [] then none
  else match (line.drop word.length).dropWhile Text.isBlank with
    | ':' :: rest => (Text.behindBlanks? restOfLine? rest).map fun text => (word, text)
    | _ => none

/-- Classifies a trimmed line by its label; case does not matter. -/
def ofText (line : List Char) : Line :=
  match labelled? line with
  | none => unrecognized line
  | some (word, pattern) =>
    let label := String.ofList (Text.toUpper word)
    if label = "DRUMS" then drums pattern
    else if label = HeaderField.song.label then header .song
    else if label = HeaderField.tempo.label then header .tempo
    else if label = HeaderField.key.label then header .key
    else instrument word pattern

end Line

/-- A word as the name of a track: the first letter of every run of letters in upper case, all else
in lower case. -/
def titleCase (word : List Char) : List Char := go false (Text.toLower word)
where
  /-- Goes on behind a letter or behind something else. -/
  go (behindLetter : Bool) : List Char → List Char
    | [] => []
    | c :: rest =>
      let isLetter := decide (Text.toUpper [c] ≠ Text.toLower [c])
      (if isLetter && !behindLetter then Text.toUpper [c] else [c]) ++ go isLetter rest

end LeadSheet.Sheet
