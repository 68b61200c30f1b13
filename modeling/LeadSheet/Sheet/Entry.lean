import LeadSheet.Harmony.Pitch

/-!
# Entries of a bar

A bar of a pattern is filled with entries, a word and an argument in parentheses: a note or a chord
with its parameters, or a drum with its beats. Whatever stands between entries is passed over.
-/

namespace LeadSheet.Sheet

/-- A word with its argument. -/
structure Entry where
  word : List Char
  argument : List Char
  deriving DecidableEq, Repr

/-- Reads an argument: behind blanks an opening parenthesis, then at least one character, up to the
next closing parenthesis. -/
def argument? (text : List Char) : Option (List Char × List Char) :=
  match text.dropWhile Text.isBlank with
  | '(' :: inside =>
    let argument := inside.takeWhile (· ≠ ')')
    match inside.dropWhile (· ≠ ')') with
    | ')' :: rest => if argument = [] then none else some (argument, rest)
    | _ => none
  | _ => none

/-- The word of a note or a chord: a note letter, perhaps an accidental, and word characters. -/
def pitchedWord? : List Char → Option (List Char × List Char)
  | c :: rest =>
    if !isNoteLetter c then none
    else
      let accidental := (rest.take 1).filter isAccidental
      let behind := rest.drop accidental.length
      some (c :: accidental ++ behind.takeWhile Text.isWordChar, behind.dropWhile Text.isWordChar)
  | [] => none

/-- The word of a drum: word characters. -/
def drumWord? (text : List Char) : Option (List Char × List Char) :=
  let word := text.takeWhile Text.isWordChar
  if word = [] then none else some (word, text.dropWhile Text.isWordChar)

/-- Reads an entry that starts here. -/
def entry? (word? : List Char → Option (List Char × List Char)) (text : List Char) :
    Option (Entry × List Char) :=
  match word? text with
  | none => none
  | some (word, rest) => (argument? rest).map fun (argument, rest) => (⟨word, argument⟩, rest)

/-- The entries of a text. Where none starts the reading goes on with the next character; behind an
entry it goes on at its end. `skip` is how much of the text belongs to the entry read last. -/
def entriesFrom (word? : List Char → Option (List Char × List Char)) (skip : Nat) :
    List Char → List Entry
  | [] => []
  | c :: rest =>
    match skip with
    | skip + 1 => entriesFrom word? skip rest
    | 0 =>
      match entry? word? (c :: rest) with
      | some (entry, behind) => entry :: entriesFrom word? (rest.length - behind.length) rest
      | none => entriesFrom word? 0 rest

/-- The entries of a text. -/
def entries (word? : List Char → Option (List Char × List Char)) (text : List Char) : List Entry :=
  entriesFrom word? 0 text

end LeadSheet.Sheet
