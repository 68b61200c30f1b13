import LeadSheet.Document.File
import LeadSheet.Proofs.Document.Saved
import LeadSheet.Proofs.Text.Utf8

/-!
# Project files hold scores

A score goes through four writers on its way to a file: it becomes a document, the document becomes
text, with blanks and line breaks for a reader's eyes, and the text becomes bytes. Each of them is
undone by its reader (`load_ofScore`, `Json.ofText?_text`, `Text.Utf8.decode_encode`), so the score
comes back as it was: every string, whatever characters are in it, and every number but negative
zero, which is written as zero.
-/

namespace LeadSheet.Document

theorem loadFile_fileBytes (options : LoadOptions) {s : Score Float}
    (hs : Storable s.numbers s.lengths) (h : ∀ x ∈ s.numbers, Writable x) :
    loadFile options (fileBytes s) = ⟨.ok s, []⟩ := by
  unfold loadFile fileBytes
  rw [Text.Utf8.decode_encode]
  exact loadText_text _ options defaultLayout hs h

/-- **Saved scores load as they were.** If the numbers of a score are finite and none of them is
negative zero, and its tempos, numbers of bars and durations are positive, then its text loads as
the score, whatever indentation was asked for, and so does its project file. There is no warning,
and options and migrations make no difference. -/
theorem saved_score_loads (registry : Schema.Registry) (options : LoadOptions) (indent : Float)
    {s : Score Float} (hs : Storable s.numbers s.lengths) (hzero : ∀ x ∈ s.numbers, x ≠ -0) :
    loadText registry options (text s (layoutOf indent)).toList = ⟨.ok s, []⟩ ∧
      loadFile options (fileBytes s) = ⟨.ok s, []⟩ := by
  have hwritable : ∀ x ∈ s.numbers, Writable x := fun x hx =>
    writable_of_finite (hs.finite x hx) (hzero x hx)
  exact ⟨loadText_text registry options (layoutOf indent) hs hwritable,
    loadFile_fileBytes options hs hwritable⟩

/-- A score with quotes, a line break, a control character and characters of every size in its
names, and with numbers that are negative, tiny and huge. -/
def namedOddly : Score Float :=
  { title := "\"Café\" \\ \u2028\n\x01 𝄞", tempo := 92.5, key := "", timeSignature := "4/4"
    sections :=
      [{ name := "\tB 𝄆", bars := 1.0e-300, startBar := -3, key := some "F#m", tempo := none
         tracks :=
          [{ name := "é", instrument := "piano"
             notes := [{ pitch := -0.1, start := 1.0e300, duration := 0.3, velocity := 0 }]
             chords := [], volume := 0.8, pan := 0.5 }]
         drums := some { name := "", hits := [], volume := 1 } }] }

theorem saved_namedOddly_loads :
    Storable namedOddly.numbers namedOddly.lengths ∧ (∀ x ∈ namedOddly.numbers, x ≠ -0) ∧
      loadText .standard {} (text namedOddly (layoutOf 3.7)).toList = ⟨.ok namedOddly, []⟩ ∧
      loadFile {} (fileBytes namedOddly) = ⟨.ok namedOddly, []⟩ := by
  have hs : Storable namedOddly.numbers namedOddly.lengths :=
    storable_iff.mpr (by decide +kernel)
  have hzero : ∀ x ∈ namedOddly.numbers, x ≠ -0 := by
    decide +kernel
  exact ⟨hs, hzero, saved_score_loads .standard {} 3.7 hs hzero⟩

end LeadSheet.Document
