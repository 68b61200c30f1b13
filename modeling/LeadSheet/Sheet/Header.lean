import LeadSheet.Sheet.Layout
import LeadSheet.Sheet.Line
import LeadSheet.Number.Numeral
import LeadSheet.Score.Basic

/-!
# Header fields

Title, tempo and key of a song are read from the first place in the cleaned text where their
keyword is followed by something readable; name and length of a section from its first line. The
readers here return what was written. What a tempo or a length of zero means is decided by those
who ask.
-/

namespace LeadSheet.Sheet

/-- The rest of the line up to a line break or the end of the text. Other line ends in between make
it unreadable. -/
def titleText? (text : List Char) : Option (List Char) :=
  let line := text.takeWhile fun c => !Text.isLineEnd c
  match text.drop line.length with
  | [] => if line = [] then none else some line
  | c :: _ => if line = [] ∨ c ≠ '\n' then none else some line

/-- The digits here, if there are any. -/
def digits? (text : List Char) : Option (List Char) :=
  let digits := text.takeWhile Char.isDigit
  if digits = [] then none else some digits

/-- The key here: a letter from A to G, perhaps an accidental, perhaps an `m` for minor. Case does
not matter, and the key stays as it was written. -/
def keyText? : List Char → Option (List Char)
  | letter :: rest =>
    if !isNoteLetter letter then none
    else
      let accidental := (rest.take 1).filter fun c => c == '#' || c == 'b' || c == 'B'
      let minor := ((rest.drop accidental.length).take 1).filter fun c => c == 'm' || c == 'M'
      some (letter :: accidental ++ minor)
  | [] => none
where
  /-- Whether a character is a letter from A to G. -/
  isNoteLetter (c : Char) : Bool := 'A' ≤ c.toUpper && c.toUpper ≤ 'G'

/-- The text, or another one if it is empty. -/
def orElse (other : String) (text : List Char) : String :=
  if text = [] then other else String.ofList text

/-- The title of a cleaned text. -/
def titleOf (text : List Char) : String :=
  match Text.behindLabel? "SONG:".toList titleText? text with
  | some title => orElse Default.title (Text.trim title)
  | none => Default.title

/-- The key of a cleaned text. -/
def keyOf (text : List Char) : String :=
  match Text.behindLabel? "KEY:".toList keyText? text with
  | some key => String.ofList key
  | none => Default.key

/-- The digits of the tempo of a cleaned text. -/
def tempoDigits? (text : List Char) : Option (List Char) :=
  Text.behindLabel? "TEMPO:".toList digits? text

/-! ## The first line of a section -/

/-- Whether a section's name ends here: at the end of the line, or before an opening bracket or
parenthesis, blanks aside. -/
def endsName (text : List Char) : Bool :=
  match text, text.dropWhile Text.isBlank with
  | [], _ => true
  | _, c :: _ => c == '[' || c == '('
  | _, [] => false

/-- The shortest name that can be read here, of at least one character. -/
def nameText? : List Char → Option (List Char)
  | [] => none
  | c :: rest =>
    if Text.isLineEnd c then none
    else if endsName rest then some [c]
    else (nameText? rest).map (c :: ·)

/-- The name of a section that names itself nothing. -/
def defaultSectionName : String := "Section"

/-- The name in the first line of a section. -/
def sectionNameOf (line : List Char) : String :=
  match Text.behindLabel? sectionKeyword nameText? line with
  | some name => orElse defaultSectionName (Text.trim name)
  | none => defaultSectionName

/-- The digits of the first number that is followed by the word `bar`. `digits` are those read just
before, if any. -/
def barDigitsFrom (digits : List Char) : List Char → Option (List Char)
  | [] => none
  | c :: rest =>
    if c.isDigit then barDigitsFrom (digits ++ [c]) rest
    else
      let behind := (c :: rest).dropWhile Text.isBlank
      if digits ≠ [] && Text.startsWithLabel "BAR".toList behind then some digits
      else barDigitsFrom [] rest

/-- The digits of the number of bars in the first line of a section. -/
def barDigits? (line : List Char) : Option (List Char) := barDigitsFrom [] line

end LeadSheet.Sheet
