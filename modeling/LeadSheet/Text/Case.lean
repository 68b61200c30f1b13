import LeadSheet.Text.Case.Table

/-!
# Upper and lower case of whole texts

The full case mappings of Unicode: a character may become several, and the lower case of a capital
sigma depends on whether it ends a word. Comparisons that look for a keyword of the text format do
not use them; those fold ASCII letters only (`Text.Scan`).
-/

namespace LeadSheet.Text

namespace Case

/-- Whether a run moves the character with this number. -/
def Run.covers (run : Run) (n : Nat) : Bool :=
  run.first ≤ n && n ≤ run.last && (n - run.first) % run.step == 0

/-- The number a character moves to; itself if no run covers it. -/
def move (runs : List Run) (n : Nat) : Nat :=
  match runs.find? (·.covers n) with
  | some run => ((n : Int) + run.distance).toNat
  | none => n

/-- The other case of a character beyond ASCII. -/
def mapped (long : List (Nat × List Nat)) (runs : List Run) (c : Char) : List Char :=
  match long.lookup c.toNat with
  | some several => several.map Char.ofNat
  | none => [Char.ofNat (move runs c.toNat)]

/-- The upper case of a character. -/
def upper (c : Char) : List Char :=
  if c.toNat < 0x80 then [c.toUpper] else mapped upperLong upperRuns c

/-- The lower case of a character, whatever stands around it. -/
def lower (c : Char) : List Char :=
  if c.toNat < 0x80 then [c.toLower] else mapped lowerLong lowerRuns c

/-- Whether a character's number lies in one of the ranges. -/
def inRanges (ranges : List (Nat × Nat)) (c : Char) : Bool :=
  ranges.any fun range => range.1 ≤ c.toNat && c.toNat ≤ range.2

/-- Whether a character has case. -/
def isCased (c : Char) : Bool := inRanges casedRanges c

/-- Whether a character is passed over when looking for one that has case. -/
def isIgnorable (c : Char) : Bool := inRanges ignorableRanges c

/-- Whether the next character that counts has case. -/
def casedFollows (text : List Char) : Bool :=
  match text.dropWhile isIgnorable with
  | [] => false
  | c :: _ => isCased c

/-- Lower case in context: a capital sigma behind a character with case is final unless another one
follows. -/
def lowerFrom (afterCased : Bool) : List Char → List Char
  | [] => []
  | c :: rest =>
    let here := if c = 'Σ' then [if afterCased && !casedFollows rest then 'ς' else 'σ'] else lower c
    here ++ lowerFrom (if isIgnorable c then afterCased else isCased c) rest

end Case

/-- The text in upper case. -/
def toUpper (text : List Char) : List Char := text.flatMap Case.upper

/-- The text in lower case. -/
def toLower (text : List Char) : List Char :=
  if text.contains 'Σ' then Case.lowerFrom false text else text.flatMap Case.lower

/-- A string in lower case. -/
def lowerString (text : String) : String := String.ofList (toLower text.toList)

end LeadSheet.Text
