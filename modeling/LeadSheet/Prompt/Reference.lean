/-!
# The reference card

A language model that is to write a sheet is shown how one looks. The card is part of every prompt
for a whole song.
-/

namespace LeadSheet.Prompt

/-- The lines of the reference card. -/
def referenceLines : List String := [
  "",
  "## SONG DSL FORMAT REFERENCE",
  "",
  "You must output a song in this EXACT format. No explanations, just the DSL code.",
  "",
  "### Structure:",
  "```",
  "SONG: [Title]",
  "TEMPO: [BPM as integer, e.g., 120]",
  "KEY: [Key signature, e.g., Am, C, F#m, Bb]",
  "",
  "SECTION: [Name] [X bars]",
  "  [INSTRUMENT]: [pattern]",
  "  [INSTRUMENT]: [pattern]",
  "  DRUMS: [drum pattern]",
  "",
  "SECTION: [Name] [X bars]",
  "  ...",
  "```",
  "",
  "### Instrument Pattern Format:",
  "Each bar separated by `|`. Chords/notes with duration in parentheses.",
  "",
  "Durations: w=whole, h=half, q=quarter, e=eighth, s=sixteenth",
  "Dynamics: ppp, pp, p, mp, mf, f, ff, fff",
  "",
  "Examples:",
  "- `Am(w)` = A minor chord, whole note",
  "- `C(h) G(h)` = C chord half note, G chord half note (fills one bar)",
  "- `F(q) Am(q) | Dm(h)` = Two bars",
  "- `C4(q)` = single note C in octave 4, quarter note",
  "- `_` = Rest/silent bar",
  "",
  "### Drum Pattern Format:",
  "`[drum](beats)` where beats are 1-4 (quarter notes) or special patterns.",
  "",
  "Drums: kick, snare, hat, open_hat, crash, ride, tom_low, tom_mid, tom_high",
  "Special: 8ths (every eighth note), 16ths (every sixteenth)",
  "",
  "Examples:",
  "- `kick(1,3) snare(2,4)` = Standard rock beat",
  "- `hat(8ths)` = Hi-hat on every eighth note",
  "- `kick(1) snare(2,4) hat(8ths)` = Combined pattern",
  "",
  "### Available Instruments:",
  "piano, strings, bass, drums, guitar, synth, lead, pad, organ, brass,",
  "flute, violin, cello, choir, voice, sax, trumpet",
  "",
  "### Example Complete Song:",
  "```",
  "SONG: Harbor Lights",
  "TEMPO: 92",
  "KEY: Dm",
  "",
  "SECTION: Intro [4 bars]",
  "  PIANO: Dm(w) | Bb(w) | F(w) | C(w)",
  "  STRINGS: _ | _ | Dm(w,pp) | Bb(w,pp)",
  "",
  "SECTION: Verse [8 bars]",
  "  PIANO: Dm(h) Am(h) | Bb(w) | Gm(h) Dm(h) | A(w) | Dm(h) Am(h) | Bb(w) | C(w) | Dm(w)",
  "  BASS: D2(w) | Bb1(w) | G2(w) | A2(w) | D2(w) | Bb1(w) | C2(w) | D2(w)",
  "  DRUMS: kick(1,3) snare(2,4) hat(8ths)",
  "",
  "SECTION: Chorus [8 bars]",
  "  PIANO: Bb(w) | C(w) | Dm(w) | Am(w) | Bb(w) | C(w) | F(h) C(h) | Dm(w)",
  "  STRINGS: Bb(w,mf) | C(w,mf) | Dm(w,mf) | Am(w,mf) | Bb(w,f) | C(w,f) | F(w,f) | Dm(w,f)",
  "  BASS: Bb1(w) | C2(w) | D2(w) | A1(w) | Bb1(w) | C2(w) | F2(h) C2(h) | D2(w)",
  "  DRUMS: kick(1,3) snare(2,4) hat(8ths) crash(1)",
  "",
  "SECTION: Outro [4 bars]",
  "  PIANO: Dm(w,mp) | Bb(w,p) | F(w,pp) | Dm(w,ppp)",
  "  STRINGS: Dm(w,mp) | Bb(w,p) | F(w,pp) | Dm(w,ppp)",
  "```",
  ""]

/-- The reference card. -/
def reference : String := "\n".intercalate referenceLines

end LeadSheet.Prompt
