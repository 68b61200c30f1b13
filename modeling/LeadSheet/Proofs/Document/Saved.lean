import LeadSheet.Proofs.Document.RoundTrip
import LeadSheet.Proofs.Json.RoundTrip

/-!
# What is saved as text loads as it was

Between a score and its document nothing is lost that the document can hold (`load_ofScore`);
between the document and its text a number is lost if it has no text of its own. So the text of a
score loads as the score if the document holds it and no number is negative zero (`loadText_text`).

That the names of an object's fields are distinct is part of what makes a value readable. A section
leaves fields out, but this only makes the names fewer.
-/

namespace LeadSheet.Document

open Json (Readable)

/-! ## Documents that can be read back -/

theorem readable_array {β : Type} {write : β → Json} {items : List β}
    (h : ∀ x ∈ items, (write x).Readable) : (Json.array (items.map write)).Readable := by
  unfold Json.Readable
  exact Json.itemsReadable_iff.mpr (List.forall_mem_map.mpr h)

theorem readable_note {n : Note Float} (h : ∀ x ∈ n.numbers, Writable x) :
    (ofNote n).Readable := by
  obtain ⟨hpitch, hstart, hduration, hvelocity⟩ := Note.forall_numbers.mp h
  simp [ofNote, Json.Readable, Json.FieldsReadable, *]

theorem readable_chord {c : Chord Float} (h : ∀ x ∈ c.numbers, Writable x) :
    (ofChord c).Readable := by
  obtain ⟨hoctave, hstart, hduration, hvelocity⟩ := Chord.forall_numbers.mp h
  simp [ofChord, Json.Readable, Json.FieldsReadable, *]

theorem readable_track {t : Track Float} (h : ∀ x ∈ t.numbers, Writable x) :
    (ofTrack t).Readable := by
  obtain ⟨hnotes, hchords, hvolume, hpan⟩ := Track.forall_numbers.mp h
  have hnotes := readable_array fun n hn => readable_note (hnotes n hn)
  have hchords := readable_array fun c hc => readable_chord (hchords c hc)
  simp only [Json.Readable] at hnotes hchords
  simp [ofTrack, Json.Readable, Json.FieldsReadable, hnotes, hchords, hvolume, hpan]

theorem readable_hit {hit : DrumHit Float} (h : ∀ x ∈ hit.numbers, Writable x) :
    (ofHit hit).Readable := by
  obtain ⟨hstart, hvelocity⟩ := DrumHit.forall_numbers.mp h
  simp [ofHit, Json.Readable, Json.FieldsReadable, *]

theorem readable_drums {d : DrumTrack Float} (h : ∀ x ∈ d.numbers, Writable x) :
    (ofDrums d).Readable := by
  obtain ⟨hhits, hvolume⟩ := DrumTrack.forall_numbers.mp h
  have hhits := readable_array fun hit hhit => readable_hit (hhits hit hhit)
  simp only [Json.Readable] at hhits
  simp [ofDrums, Json.Readable, Json.FieldsReadable, hhits, hvolume]

/-- A field that is left out is no obstacle. -/
theorem readable_present {β : Type} {name : String} {write : β → Json} {x? : Option β}
    (h : ∀ x ∈ x?, (write x).Readable) : ∀ field ∈ present name write x?, field.2.Readable := by
  cases x? with
  | none => exact fun _ hfield => absurd hfield List.not_mem_nil
  | some x =>
    intro field hfield
    rw [List.mem_singleton.mp hfield]
    exact h x rfl

theorem names_present {β : Type} (name : String) (write : β → Json) (x? : Option β) :
    ((present name write x?).map (·.1)).Sublist [name] := by
  cases x? with
  | none => exact List.nil_sublist _
  | some x => exact List.Sublist.refl _

theorem readable_section {s : Section Float} (h : ∀ x ∈ s.numbers, Writable x) :
    (ofSection s).Readable := by
  obtain ⟨hbars, hstart, htempo, htracks, hdrums⟩ := Section.forall_numbers.mp h
  unfold ofSection Json.Readable
  constructor
  · -- at most these names, in this order
    have hnames : ["name", "bars", "start_bar", "tracks", "key", "tempo", "drums"].Nodup := by
      decide
    refine hnames.sublist ?_
    simp only [List.map_append]
    exact (((List.Sublist.refl _).append (names_present "key" _ s.key)).append
      (names_present "tempo" _ s.tempo)).append (names_present "drums" _ s.drums)
  · have htracks := readable_array fun t ht => readable_track (htracks t ht)
    have hkey : ∀ field ∈ present "key" Json.string s.key, field.2.Readable :=
      readable_present fun key _ => by simp [Json.Readable]
    have htempo : ∀ field ∈ present "tempo" Json.number s.tempo, field.2.Readable :=
      readable_present fun x hx => by simpa [Json.Readable] using htempo x hx
    have hdrums : ∀ field ∈ present "drums" ofDrums s.drums, field.2.Readable :=
      readable_present fun d hd => readable_drums (hdrums d hd)
    rw [Json.fieldsReadable_iff]
    simp only [List.forall_mem_append]
    refine ⟨⟨⟨?_, hkey⟩, htempo⟩, hdrums⟩
    simp only [Json.Readable] at htracks
    simp [Json.Readable, hbars, hstart, htracks]

/-- A document of numbers that can be written can be read back. -/
theorem readable_ofScore {s : Score Float} (h : ∀ x ∈ s.numbers, Writable x) :
    (ofScore s).Readable := by
  obtain ⟨htempo, hsections⟩ := Score.forall_numbers.mp h
  have hsections := readable_array fun part hpart => readable_section (hsections part hpart)
  simp only [Json.Readable] at hsections
  simp [ofScore, scoreFields, Json.Readable, Json.FieldsReadable, htempo, hsections]

/-! ## Texts -/

/-- **A score whose numbers a document can hold is not changed by saving and loading it.** -/
theorem loadText_text (registry : Schema.Registry) (options : LoadOptions) (layout : Json.Layout)
    {s : Score Float} (hs : Storable s.numbers s.lengths) (h : ∀ x ∈ s.numbers, Writable x) :
    loadText registry options (text s layout).toList = ⟨.ok s, []⟩ := by
  unfold loadText text
  rw [Json.ofText?_text layout (readable_ofScore h)]
  exact load_storable registry options hs

/-- What loads from a text is a score that a document can hold. -/
theorem storable_of_loadText {registry : Schema.Registry} {options : LoadOptions}
    {text : List Char} {s : Score Float} (h : (loadText registry options text).outcome = .ok s) :
    Storable s.numbers s.lengths := by
  unfold loadText at h
  split at h
  · exact storable_of_load h
  · cases h

end LeadSheet.Document
