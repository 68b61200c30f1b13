import LeadSheet.Prompt.Request

/-!
# Presets

Ready-made musical direction for common kinds of songs, by name.
-/

namespace LeadSheet.Prompt

/-- The presets. A classical piece names no tempo, so that one can be chosen for each movement. -/
def presets : List (String × Direction) := [
  ("pop_ballad",
    { style := some "pop ballad"
      mood := some "emotional, heartfelt"
      tempoHint := some "70-85"
      instruments := some ["piano", "strings", "bass", "drums"]
      structureHint := some "intro, verse, chorus, verse, chorus, bridge, chorus, outro" }),
  ("rock_anthem",
    { style := some "rock anthem"
      mood := some "powerful, energetic"
      tempoHint := some "120-140"
      instruments := some ["guitar", "bass", "drums", "synth"]
      structureHint :=
        some "intro, verse, pre-chorus, chorus, verse, chorus, solo, chorus, outro" }),
  ("chill_lofi",
    { style := some "lo-fi hip hop"
      mood := some "relaxed, nostalgic"
      tempoHint := some "75-90"
      instruments := some ["piano", "bass", "drums", "pad"]
      structureHint := some "intro, main loop A, main loop B, main loop A, outro" }),
  ("epic_cinematic",
    { style := some "cinematic orchestral"
      mood := some "epic, dramatic"
      tempoHint := some "90-110"
      instruments := some ["strings", "brass", "piano", "drums", "choir"]
      structureHint := some "intro, build, climax, resolution" }),
  ("jazz_standard",
    { style := some "jazz"
      mood := some "sophisticated, smooth"
      tempoHint := some "120-160"
      instruments := some ["piano", "bass", "drums", "sax"]
      structureHint := some "head, solo section, head out" }),
  ("electronic_dance",
    { style := some "electronic dance"
      mood := some "energetic, driving"
      tempoHint := some "125-130"
      instruments := some ["synth", "bass", "drums", "lead", "pad"]
      structureHint := some "intro, buildup, drop, breakdown, buildup, drop, outro" }),
  ("ambient",
    { style := some "ambient"
      mood := some "atmospheric, peaceful"
      tempoHint := some "60-80"
      instruments := some ["pad", "strings", "piano"]
      structureHint := some "evolving texture, minimal structure" }),
  ("classical_piece",
    { style := some "classical"
      mood := some "elegant, refined"
      instruments := some ["piano", "strings", "flute"]
      structureHint := some "exposition, development, recapitulation" })]

/-- Whether a preset has the name. -/
def isPreset (name : String) : Bool := (presets.lookup name).isSome

/-- The prompt for a whole song with the direction of a preset; without direction if no preset has
the name. -/
def presetPrompt (name description : String) : String :=
  songPrompt description ((presets.lookup name).getD {})

end LeadSheet.Prompt
