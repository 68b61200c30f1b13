import LeadSheet.Text.Blank

/-!
# Finding and splitting

What the readers of the text format share: splitting at a character, looking for a word inside a
text, and matching a label. Labels are matched without regard to the case of ASCII letters; a
letter beyond ASCII never matches one of ASCII.
-/

namespace LeadSheet.Text

/-- Whether a character is a letter, a digit or the underscore, in ASCII. -/
def isWordChar (c : Char) : Bool := c.isAlphanum || c == '_'

/-- The pieces between the separators; one more than there are separators. -/
def split (separator : Char) : List Char → List (List Char)
  | [] => [[]]
  | c :: rest =>
    if c = separator then [] :: split separator rest
    else match split separator rest with
      | [] => [[c]]
      | piece :: pieces => (c :: piece) :: pieces

/-- The pieces with the separator between them. -/
def join (separator : List Char) (pieces : List (List Char)) : List Char :=
  separator.intercalate pieces

/-- Whether the word occurs in the text. -/
def hasWord (word : List Char) : List Char → Bool
  | [] => word.isEmpty
  | c :: rest => word.isPrefixOf (c :: rest) || hasWord word rest

/-- The text up to the first occurrence of the word, or all of it. -/
def before (word : List Char) : List Char → List Char
  | [] => []
  | c :: rest => if word.isPrefixOf (c :: rest) then [] else c :: before word rest

/-- How often a character occurs. -/
def occurrences (c : Char) (text : List Char) : Nat := text.count c

/-- Whether the text starts with the label, which is given in upper case. -/
def startsWithLabel (label text : List Char) : Bool :=
  label.isPrefixOf ((text.take label.length).map Char.toUpper)

/-- Reads behind leading blanks. As many of them as possible are passed over; if nothing can be read
there, the reading starts at the last of them, and so on back to the first. -/
def behindBlanks? {β : Type} (read? : List Char → Option β) : List Char → Option β
  | [] => read? []
  | c :: rest =>
    if isBlank c then (behindBlanks? read? rest).or (read? (c :: rest)) else read? (c :: rest)

/-- Reads behind the first label, blanks aside, behind which something can be read. -/
def behindLabel? {β : Type} (label : List Char) (read? : List Char → Option β) :
    List Char → Option β
  | [] => none
  | c :: rest =>
    if startsWithLabel label (c :: rest) then
      (behindBlanks? read? ((c :: rest).drop label.length)).or (behindLabel? label read? rest)
    else behindLabel? label read? rest

end LeadSheet.Text
