/-!
# General MIDI names

The names a sheet may use for instruments and drums, with the program or the percussion key of the
General MIDI standard that each of them stands for.
-/

namespace LeadSheet.GeneralMidi

/-- Melodic instruments and their programs. -/
def programs : List (String × Nat) :=
  [("piano", 0), ("bright_piano", 1), ("electric_piano", 4), ("honkytonk", 3), ("celesta", 8),
    ("glockenspiel", 9), ("music_box", 10), ("vibraphone", 11), ("marimba", 12),
    ("xylophone", 13), ("organ", 19), ("church_organ", 19), ("rock_organ", 18),
    ("acoustic_guitar", 24), ("electric_guitar", 27), ("clean_guitar", 27),
    ("distortion_guitar", 30), ("bass", 33), ("acoustic_bass", 32), ("electric_bass", 33),
    ("slap_bass", 36), ("synth_bass", 38), ("strings", 48), ("violin", 40), ("viola", 41),
    ("cello", 42), ("contrabass", 43), ("tremolo_strings", 44), ("pizzicato", 45), ("harp", 46),
    ("string_ensemble", 48), ("synth_strings", 50), ("choir", 52), ("voice", 54),
    ("trumpet", 56), ("trombone", 57), ("tuba", 58), ("french_horn", 60), ("brass", 61),
    ("synth_brass", 62), ("saxophone", 65), ("sax", 65), ("alto_sax", 65), ("tenor_sax", 66),
    ("oboe", 68), ("clarinet", 71), ("flute", 73), ("recorder", 74), ("pan_flute", 75),
    ("lead", 80), ("square_lead", 80), ("saw_lead", 81), ("synth_lead", 81), ("synth", 81),
    ("pad", 88), ("pads", 88), ("new_age_pad", 88), ("warm_pad", 89), ("polysynth", 90),
    ("space_pad", 91), ("atmosphere", 99), ("ambient", 88), ("fx", 96), ("rain", 96),
    ("soundtrack", 97), ("crystal", 98), ("guitar", 25), ("gtr", 25), ("keys", 0),
    ("keyboard", 0), ("synths", 81), ("vox", 54), ("vocals", 54), ("horns", 61),
    ("woodwinds", 73)]

/-- Names that mean the drum kit instead of a melodic instrument. -/
def kitNames : List String :=
  ["perc", "drums", "percussion", "drum", "kit"]

/-- Drums and their percussion keys. -/
def drumKeys : List (String × Nat) :=
  [("kick", 36), ("bass", 36), ("bd", 36), ("snare", 38), ("sd", 38), ("rimshot", 37),
    ("clap", 39), ("hat", 42), ("hh", 42), ("closed_hat", 42), ("open_hat", 46), ("oh", 46),
    ("tom_low", 45), ("tom_mid", 47), ("tom_high", 50), ("crash", 49), ("ride", 51),
    ("china", 52), ("bell", 53), ("tambourine", 54), ("cowbell", 56)]

/-- The program of an instrument with an unknown name: a piano. -/
def defaultProgram : Nat := 0

/-- The percussion key of a drum with an unknown name: the bass drum. -/
def defaultDrumKey : Nat := 36

end LeadSheet.GeneralMidi
