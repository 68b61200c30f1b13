import LeadSheet.Json.Value
import LeadSheet.Number.Numeral

/-!
# Reading JSON text

The reader accepts JSON and nothing else: no comments, no trailing commas, no leading zeros, no
byte order mark, no control characters inside strings. It works on the list of characters that are
left and returns what it read together with the rest.
-/

namespace LeadSheet.Json

/-- The four blanks that JSON allows between its parts. -/
def isSpace (c : Char) : Bool := c == ' ' || c == '\t' || c == '\n' || c == '\r'

/-- The text after the blanks it starts with. -/
def skipSpace (text : List Char) : List Char := text.dropWhile isSpace

/-- The number four hexadecimal digits write. -/
def hex4? (a b c d : Char) : Option Nat :=
  let digits := [a, b, c, d]
  if digits.all (Numeral.inBase?.isDigitIn 16) then some (Numeral.ofDigits 16 digits) else none

/-- Whether a code unit is the first half of a surrogate pair. -/
def isHighSurrogate (unit : Nat) : Bool := 0xD800 ≤ unit && unit < 0xDC00

/-- Whether a code unit is the second half of a surrogate pair. -/
def isLowSurrogate (unit : Nat) : Bool := 0xDC00 ≤ unit && unit < 0xE000

/-- The character a code unit stands for alone; half a surrogate pair is replaced. -/
def ofUnit (unit : Nat) : Char :=
  if isHighSurrogate unit || isLowSurrogate unit then '\uFFFD' else Char.ofNat unit

/-- The character of a surrogate pair. -/
def ofPair (high low : Nat) : Char :=
  Char.ofNat (0x10000 + (high - 0xD800) * 0x400 + (low - 0xDC00))

/-- What a letter after a backslash stands for. -/
def escape? : Char → Option Char
  | '"' => some '"'
  | '\\' => some '\\'
  | '/' => some '/'
  | 'b' => some '\x08'
  | 'f' => some '\x0C'
  | 'n' => some '\n'
  | 'r' => some '\r'
  | 't' => some '\t'
  | _ => none

/-- A part of a string as it is written: a character, or a 16-bit code unit given by its number. -/
inductive Piece where
  | plain (c : Char)
  | unit (code : Nat)
  deriving DecidableEq, Repr

/-- Reads the parts of a string from behind its opening quote to behind its closing one. -/
def pieces? : List Char → Option (List Piece × List Char)
  | [] => none
  | '"' :: rest => some ([], rest)
  | '\\' :: 'u' :: a :: b :: c :: d :: rest =>
    match hex4? a b c d with
    | some code => (pieces? rest).map fun (s, r) => (.unit code :: s, r)
    | none => none
  | '\\' :: c :: rest =>
    match escape? c with
    | some e => (pieces? rest).map fun (s, r) => (.plain e :: s, r)
    | none => none
  | c :: rest =>
    if c < ' ' ∨ c = '\\' then none else (pieces? rest).map fun (s, r) => (.plain c :: s, r)

/-- The characters that the parts of a string stand for: two units that form a surrogate pair are
one character. -/
def joinPieces : List Piece → List Char
  | [] => []
  | .plain c :: rest => c :: joinPieces rest
  | .unit high :: .unit low :: rest =>
    if isHighSurrogate high && isLowSurrogate low then ofPair high low :: joinPieces rest
    else ofUnit high :: joinPieces (.unit low :: rest)
  | .unit code :: rest => ofUnit code :: joinPieces rest

/-- Reads a string from behind its opening quote to behind its closing one. -/
def stringBody? (text : List Char) : Option (List Char × List Char) :=
  (pieces? text).map fun (parts, rest) => (joinPieces parts, rest)

/-- Reads a number: an integer part without leading zeros, then perhaps a fraction, then perhaps a
power of ten. -/
def number? (text : List Char) : Option (Float × List Char) :=
  let (negative, text) := match text with
    | '-' :: rest => (true, rest)
    | rest => (false, rest)
  let whole := text.takeWhile Char.isDigit
  let rest := text.dropWhile Char.isDigit
  if whole = [] ∨ (whole.head? = some '0' ∧ whole.length ≠ 1) then none
  else
    let parts := match rest with
      | '.' :: rest =>
        let fraction := rest.takeWhile Char.isDigit
        if fraction = [] then none else some (fraction, rest.dropWhile Char.isDigit)
      | rest => some ([], rest)
    match parts with
    | none => none
    | some (fraction, rest) =>
      (Numeral.exponentPart? rest).map fun (exponent, rest) =>
        let size := Numeral.ofParts whole fraction exponent
        (if negative then -size else size, rest)

/-- Reads a word that stands for a value. -/
def word? (text : List Char) : Option (Json × List Char) :=
  if "null".toList.isPrefixOf text then some (null, text.drop 4)
  else if "true".toList.isPrefixOf text then some (bool true, text.drop 4)
  else if "false".toList.isPrefixOf text then some (bool false, text.drop 5)
  else none

mutual

/-- Reads a value. The first argument bounds how deep and how long the reading may go; twice the
length of the text is enough. -/
def value? : Nat → List Char → Option (Json × List Char)
  | 0, _ => none
  | fuel + 1, text =>
    match skipSpace text with
    | '{' :: rest =>
      match skipSpace rest with
      | '}' :: rest => some (object [], rest)
      | rest => (members? fuel [] rest).map fun (fields, rest) => (object fields, rest)
    | '[' :: rest =>
      match skipSpace rest with
      | ']' :: rest => some (array [], rest)
      | rest => (elements? fuel rest).map fun (items, rest) => (array items, rest)
    | '"' :: rest => (stringBody? rest).map fun (s, rest) => (string (String.ofList s), rest)
    | c :: rest =>
      if c = '-' ∨ c.isDigit then (number? (c :: rest)).map fun (x, rest) => (number x, rest)
      else word? (c :: rest)
    | [] => none

/-- Reads the values of an array, at least one, to behind its closing bracket. -/
def elements? : Nat → List Char → Option (List Json × List Char)
  | 0, _ => none
  | fuel + 1, text =>
    match value? fuel text with
    | none => none
    | some (item, rest) =>
      match skipSpace rest with
      | ',' :: rest => (elements? fuel rest).map fun (items, rest) => (item :: items, rest)
      | ']' :: rest => some ([item], rest)
      | _ => none

/-- Reads the fields of an object, at least one, to behind its closing brace. They are put over the
fields read before. -/
def members? : Nat → Fields → List Char → Option (Fields × List Char)
  | 0, _, _ => none
  | fuel + 1, before, text =>
    match skipSpace text with
    | '"' :: rest =>
      match stringBody? rest with
      | none => none
      | some (name, rest) =>
        match skipSpace rest with
        | ':' :: rest =>
          match value? fuel rest with
          | none => none
          | some (value, rest) =>
            let fields := before.put (String.ofList name) value
            match skipSpace rest with
            | ',' :: rest => members? fuel fields rest
            | '}' :: rest => some (fields, rest)
            | _ => none
        | _ => none
    | _ => none

end

/-- Reads a whole text as one value. -/
def ofText? (text : List Char) : Option Json :=
  match value? (2 * text.length + 2) text with
  | some (value, rest) => if skipSpace rest = [] then some value else none
  | none => none

end LeadSheet.Json
