import LeadSheet.Number.Notation
import LeadSheet.Prompt.Reference

/-!
# Prompts

Prompts ask a language model for a sheet: for a whole song from a description with whatever musical
direction is given, or for one section that fits into a song. Directions that are missing or empty
are not mentioned.
-/

namespace LeadSheet.Prompt

/-- Musical direction for a song. -/
structure Direction where
  style : Option String := none
  mood : Option String := none
  /-- Beats a minute, or a range. -/
  tempoHint : Option String := none
  keyHint : Option String := none
  timeSignature : Option String := none
  /-- About how many bars. -/
  lengthBars : Option String := none
  chordProgression : Option String := none
  instruments : Option (List String) := none
  structureHint : Option String := none
  durationHint : Option String := none
  deriving DecidableEq, Repr

/-- A direction that is given and not empty. -/
def given (text : Option String) : Option String := text.filter (· ≠ "")

/-- The line of a direction, if it is given. -/
def line? (label : String) (text : Option String) (unit : String := "") : Option String :=
  (given text).map fun value => "- " ++ label ++ ": " ++ value ++ unit

/-- The lines of a direction. -/
def Direction.lines (d : Direction) : List String :=
  let instruments := (d.instruments.filter (· ≠ [])).map (", ".intercalate ·)
  [line? "Style/Genre" d.style,
    line? "Mood" d.mood,
    line? "Tempo" d.tempoHint " BPM",
    line? "Key" d.keyHint,
    line? "Time Signature" d.timeSignature,
    line? "Approximate Length" d.lengthBars " bars",
    line? "Chord Progression" d.chordProgression,
    instruments.map fun value => "- Instruments: " ++ value,
    line? "Structure" d.structureHint,
    line? "Duration" d.durationHint].filterMap id

/-- The prompt for a whole song. -/
def songPrompt (description : String) (direction : Direction) : String :=
  let lines := direction.lines
  let parameters := if lines = [] then [] else "## PARAMETERS:" :: lines ++ [""]
  "\n".intercalate
    (["# SONG GENERATION REQUEST",
        "",
        "Generate a complete song in the DSL format specified below.",
        "Output ONLY the DSL code - no explanations before or after.",
        "",
        "## SONG DESCRIPTION:",
        description,
        ""]
      ++ parameters
      ++ [reference,
        "",
        "## YOUR OUTPUT:",
        "Generate the complete song now. Start with `SONG:` and include all sections.",
        "Remember: Output ONLY the DSL code, no explanations."])

/-- A section that is asked for. -/
structure SectionRequest where
  /-- The name of the section. -/
  sectionType : String
  bars : Float
  key : String
  tempo : Float
  instruments : List String
  mood : Option String := none
  /-- What the section should fit to. -/
  reference : Option String := none

/-- The prompt for one section. -/
def sectionPrompt (r : SectionRequest) : String :=
  let bars := Notation.ofFloat r.bars
  let mood := ((given r.mood).map fun mood => ["- Mood: " ++ mood]).getD []
  let context := ((given r.reference).map fun text => ["", "Reference/Context: " ++ text]).getD []
  "\n".intercalate
    (["# GENERATE SONG SECTION",
        "",
        "Generate a " ++ r.sectionType ++ " section with these parameters:",
        "- Bars: " ++ bars,
        "- Key: " ++ r.key,
        "- Tempo: " ++ Notation.ofFloat r.tempo,
        "- Instruments: " ++ ", ".intercalate r.instruments]
      ++ mood
      ++ context
      ++ ["",
        "Output ONLY the section in this format:",
        "```",
        "SECTION: " ++ r.sectionType ++ " [" ++ bars ++ " bars]",
        "  [instrument patterns...]",
        "  DRUMS: [drum pattern]",
        "```",
        "",
        "Use the DSL format with chords like `Am(w)`, `F(h)`, etc.",
        "Durations: w=whole, h=half, q=quarter, e=eighth",
        "Dynamics: pp, p, mp, mf, f, ff",
        ""])

end LeadSheet.Prompt
