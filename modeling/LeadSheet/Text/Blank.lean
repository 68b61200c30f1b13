/-!
# Blank characters and trimming

The text format, the version numbers and the drum patterns all agree on what counts as blank: the
control characters from tab to carriage return, and every space and line separator of Unicode,
the byte order mark included.
-/

namespace LeadSheet.Text

/-- Whether a character is blank. -/
def isBlank (c : Char) : Bool :=
  let n := c.toNat
  (0x09 ≤ n && n ≤ 0x0D) || n == 0x20 || n == 0xA0 || n == 0x1680 || (0x2000 ≤ n && n ≤ 0x200A) ||
    n == 0x2028 || n == 0x2029 || n == 0x202F || n == 0x205F || n == 0x3000 || n == 0xFEFF

/-- Whether a character ends a line: line feed, carriage return, or one of the two Unicode
separators. -/
def isLineEnd (c : Char) : Bool :=
  c == '\n' || c == '\r' || c.toNat == 0x2028 || c.toNat == 0x2029

/-- The text without the blanks it ends with. -/
def trimEnd : List Char → List Char
  | [] => []
  | c :: rest =>
    match trimEnd rest with
    | [] => if isBlank c then [] else [c]
    | kept => c :: kept

/-- The text without the blanks at either end. -/
def trim (text : List Char) : List Char := trimEnd (text.dropWhile isBlank)

/-- Whether nothing but blanks is there. -/
def isBlankText (text : List Char) : Bool := text.all isBlank

end LeadSheet.Text
