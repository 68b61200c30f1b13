import LeadSheet.Json.Value
import LeadSheet.Number.Notation

/-!
# Writing JSON text

A value is written on one line, or with each item and field on a line of its own, indented by so
many blanks a level, which may be none. Empty arrays and objects stay on one line in either form.
Numbers that are not finite have no JSON text and are written `null`.
-/

namespace LeadSheet.Json

/-- How a text is laid out. -/
inductive Layout where
  /-- On one line, without blanks. -/
  | oneLine
  /-- On many lines, indented by so many blanks a level. -/
  | lines (indent : Nat)
  deriving DecidableEq, Repr

/-- The lower-case digit of a number below sixteen. -/
def hexDigit (n : Nat) : Char := Nat.digitChar n

/-- How a character stands inside a string. -/
def escaped (c : Char) : List Char :=
  if c = '"' then ['\\', '"']
  else if c = '\\' then ['\\', '\\']
  else if c = '\x08' then ['\\', 'b']
  else if c = '\x0C' then ['\\', 'f']
  else if c = '\n' then ['\\', 'n']
  else if c = '\r' then ['\\', 'r']
  else if c = '\t' then ['\\', 't']
  else if c < ' ' then ['\\', 'u', '0', '0', hexDigit (c.toNat / 16), hexDigit (c.toNat % 16)]
  else [c]

/-- A string in quotes. -/
def quoted (text : String) : String :=
  "\"" ++ String.ofList (text.toList.flatMap escaped) ++ "\""

/-- The text of a number. -/
def numberText (x : Float) : String := if x.isFinite then Notation.ofFloat x else "null"

/-- The break before an item at a level: none on one line, else a new line and the blanks of the
level. -/
def Layout.lineBreak (layout : Layout) (level : Nat) : String :=
  match layout with
  | oneLine => ""
  | lines indent => "\n" ++ String.ofList (List.replicate (indent * level) ' ')

/-- What stands between the name of a field and its value. -/
def Layout.colon : Layout → String
  | oneLine => ":"
  | lines _ => ": "

mutual

/-- The text of a value that starts at a level. -/
def textAt (layout : Layout) (level : Nat) : Json → String
  | null => "null"
  | bool value => if value then "true" else "false"
  | number value => numberText value
  | string value => quoted value
  | array [] => "[]"
  | array (item :: items) =>
    "[" ++ layout.lineBreak (level + 1) ++ textAt layout (level + 1) item
      ++ itemsText layout (level + 1) items ++ layout.lineBreak level ++ "]"
  | object [] => "\x7b\x7d"
  | object ((name, value) :: fields) =>
    "\x7b" ++ layout.lineBreak (level + 1) ++ quoted name ++ layout.colon
      ++ textAt layout (level + 1) value ++ fieldsText layout (level + 1) fields
      ++ layout.lineBreak level ++ "\x7d"

/-- The text of further items, each behind a comma. -/
def itemsText (layout : Layout) (level : Nat) : List Json → String
  | [] => ""
  | item :: items =>
    "," ++ layout.lineBreak level ++ textAt layout level item ++ itemsText layout level items

/-- The text of further fields, each behind a comma. -/
def fieldsText (layout : Layout) (level : Nat) : List (String × Json) → String
  | [] => ""
  | (name, value) :: fields =>
    "," ++ layout.lineBreak level ++ quoted name ++ layout.colon ++ textAt layout level value
      ++ fieldsText layout level fields

end

/-- The text of a value. -/
def text (value : Json) (layout : Layout) : String := textAt layout 0 value

end LeadSheet.Json
