import LeadSheet.Proofs.Document.Storable

/-!
# What is stored loads as it was

The document of a score loads as the very same score exactly if the document can hold its numbers,
and else is refused as malformed, whatever the options and the registry of migrations: a document
that was just written has the current version. In the other direction, whatever loads, from whatever
value, is a score that a document holds (`load_ofScore`).

There is one pair of lemmas for each part of a score: what its reader makes of what its writer
wrote, and what any value it accepts is worth.
-/

namespace LeadSheet.Document

section

variable (path : Path)

/-! ## Parts that were written -/

theorem reads_note (n : Note Float) :
    Reads (readNote (ofNote n) path) n (Storable n.numbers [n.duration]) :=
  .congr
    (.bind_ok rfl <| .bind (reads_number path rfl none) <| .bind (reads_number path rfl none) <|
      .bind (reads_positive path rfl none) <| .bind (reads_number path rfl _) <| .pure _)
    (by simp [storable_iff, Note.numbers]; tauto)

theorem reads_chord (c : Chord Float) :
    Reads (readChord (ofChord c) path) c (Storable c.numbers [c.duration]) :=
  .congr
    (.bind_ok rfl <| .bind_ok (string_eq path rfl none) <| .bind_ok (string_eq path rfl none) <|
      .bind (reads_number path rfl none) <| .bind (reads_number path rfl none) <|
      .bind (reads_positive path rfl none) <| .bind (reads_number path rfl _) <| .pure _)
    (by simp [storable_iff, Chord.numbers]; tauto)

theorem reads_track (t : Track Float) :
    Reads (readTrack (ofTrack t) path) t (Storable t.numbers t.lengths) :=
  .congr
    (.bind_ok rfl <| .bind_ok (string_eq path rfl none) <| .bind_ok (string_eq path rfl none) <|
      .bind (reads_list path rfl fun n path => reads_note path n) <|
      .bind (reads_list path rfl fun c path => reads_chord path c) <|
      .bind (reads_number path rfl _) <| .bind (reads_number path rfl _) <| .pure _)
    (by simp [storable_iff, Track.numbers, Track.lengths]; grind)

theorem reads_hit (h : DrumHit Float) :
    Reads (readHit (ofHit h) path) h (Storable h.numbers []) :=
  .congr
    (.bind_ok rfl <| .bind_ok (string_eq path rfl none) <| .bind (reads_number path rfl none) <|
      .bind (reads_number path rfl _) <| .pure _)
    (by simp [storable_iff, DrumHit.numbers])

theorem reads_drums (d : DrumTrack Float) :
    Reads (readDrums (ofDrums d) path) d (Storable d.numbers []) :=
  .congr
    (.bind_ok rfl <| .bind_ok (string_eq path rfl _) <|
      .bind (reads_list path rfl fun h path => reads_hit path h) <|
      .bind (reads_number path rfl _) <| .pure _)
    (by simp [storable_iff, DrumTrack.numbers]; grind)

/-- A field that is there if its value is, read as it was written. -/
theorem reads_optional {β : Type} {r : Record} {name : String} {write : β → Json} {x? : Option β}
    {read : Except Complaint β} {P : β → Prop} (hget : r.get? name = x?.map write)
    (h : ∀ x, x? = some x → Reads read x (P x)) :
    Reads (optional r name read) x? (∀ x ∈ x?, P x) := by
  unfold optional
  rw [hget]
  cases x? with
  | none => exact (Reads.pure none).congr (by simp)
  | some x => exact ((h x rfl).map some).congr (by simp)

/-- A section's object as it is read. -/
def sectionRecord (s : Section Float) : Record :=
  { fields := [("name", .string s.name), ("bars", .number s.bars),
        ("start_bar", .number s.startBar), ("tracks", .array (s.tracks.map ofTrack))]
      ++ present "key" Json.string s.key ++ present "tempo" Json.number s.tempo
      ++ present "drums" ofDrums s.drums }

section

variable (s : Section Float)

-- what is not there is left out, so that the fields behind it move up

theorem get?_key : (sectionRecord s).get? "key" = s.key.map Json.string := by
  obtain ⟨_, _, _, _ | _, _ | _, _, _ | _⟩ := s <;> rfl

theorem get?_tempo : (sectionRecord s).get? "tempo" = s.tempo.map Json.number := by
  obtain ⟨_, _, _, _ | _, _ | _, _, _ | _⟩ := s <;> rfl

theorem get?_drums : (sectionRecord s).get? "drums" = s.drums.map ofDrums := by
  obtain ⟨_, _, _, _ | _, _ | _, _, _ | _⟩ := s <;> rfl

end

theorem reads_section (s : Section Float) :
    Reads (readSection [] (ofSection s) path) s (Storable s.numbers s.lengths) := by
  have hkey : Reads (optional (sectionRecord s) "key" (string (sectionRecord s) path "key")) s.key
      (∀ x ∈ s.key, True) :=
    reads_optional (get?_key s) fun key h => by
      rw [string_eq path ((get?_key s).trans (congrArg (Option.map _) h))]
      exact .pure key
  have htempo : Reads (optional (sectionRecord s) "tempo" (positive (sectionRecord s) path "tempo"))
      s.tempo (∀ x ∈ s.tempo, Scalar.isFinite x = true ∧ 0 < x) :=
    reads_optional (get?_tempo s) fun tempo h =>
      reads_positive path ((get?_tempo s).trans (congrArg (Option.map _) h)) none
  have hdrums : Reads (optional (sectionRecord s) "drums"
      (readDrums (((sectionRecord s).get? "drums").getD .null) (path ++ [.field "drums"]))) s.drums
      (∀ x ∈ s.drums, Storable x.numbers []) :=
    reads_optional (get?_drums s) fun drums h => by
      rw [get?_drums, h]
      exact reads_drums _ drums
  refine .congr
    (.bind_ok rfl <| .bind_ok (string_eq path rfl none) <| .bind (reads_positive path rfl none) <|
      .bind (reads_number path rfl _) <| .bind hkey <| .bind htempo <|
      .bind (reads_list path rfl fun t path => reads_track path t) <| .bind hdrums <| .pure _) ?_
  simp [storable_iff, Section.numbers, Section.lengths]
  grind

theorem reads_sectionsFrom :
    ∀ (index : Nat) (sections : List (Section Float)),
      Reads (sectionsFrom [] index (sections.map ofSection)) sections
        (∀ s ∈ sections, Storable s.numbers s.lengths)
  | _, [] => (Reads.pure []).congr (by simp)
  | index, s :: sections => by
    rw [List.map_cons, sectionsFrom]
    exact .congr
      (.bind (reads_section _ s) (.bind (reads_sectionsFrom (index + 1) sections) (.pure _)))
      (by simp)

theorem reads_score (s : Score Float) :
    Reads (readScore { fields := scoreFields s }) s (Storable s.numbers s.lengths) := by
  refine .congr
    (.bind_ok (string_eq [] rfl _) <| .bind (reads_positive [] rfl _) <|
      .bind_ok (string_eq [] rfl _) <| .bind_ok (string_eq [] rfl _) <|
      .bind (reads_sectionsFrom 0 s.sections) <| .pure _) ?_
  simp [storable_iff, Score.numbers, Score.lengths]
  grind

/-! ## Parts of any value -/

theorem gives_note (value : Json) :
    Gives (readNote value path) fun n => Storable n.numbers [n.duration] :=
  (Gives.any _).bind fun r _ => (gives_number r path _ (by simp)).bind fun _ _ =>
    (gives_number r path _ (by simp)).bind fun _ _ =>
    (gives_positive r path _ (by simp)).bind fun _ _ =>
    (gives_number r path _ (finite_default (by simp [defaults]))).bind fun _ _ =>
    .pure (by simp [storable_iff, Note.numbers]; tauto)

theorem gives_chord (value : Json) :
    Gives (readChord value path) fun c => Storable c.numbers [c.duration] :=
  (Gives.any _).bind fun r _ => (Gives.any _).bind fun _ _ => (Gives.any _).bind fun _ _ =>
    (gives_number r path _ (by simp)).bind fun _ _ =>
    (gives_number r path _ (by simp)).bind fun _ _ =>
    (gives_positive r path _ (by simp)).bind fun _ _ =>
    (gives_number r path _ (finite_default (by simp [defaults]))).bind fun _ _ =>
    .pure (by simp [storable_iff, Chord.numbers]; tauto)

theorem gives_track (value : Json) :
    Gives (readTrack value path) fun t => Storable t.numbers t.lengths :=
  (Gives.any _).bind fun r _ => (Gives.any _).bind fun _ _ => (Gives.any _).bind fun _ _ =>
    (gives_list r path _ fun value path => gives_note path value).bind fun _ _ =>
    (gives_list r path _ fun value path => gives_chord path value).bind fun _ _ =>
    (gives_number r path _ (finite_default (by simp [defaults]))).bind fun _ _ =>
    (gives_number r path _ (finite_default (by simp [defaults]))).bind fun _ _ =>
    .pure (by simp [storable_iff, Track.numbers, Track.lengths] at *; grind)

theorem gives_hit (value : Json) :
    Gives (readHit value path) fun h => Storable h.numbers [] :=
  (Gives.any _).bind fun r _ => (Gives.any _).bind fun _ _ =>
    (gives_number r path _ (by simp)).bind fun _ _ =>
    (gives_number r path _ (finite_default (by simp [defaults]))).bind fun _ _ =>
    .pure (by simp [storable_iff, DrumHit.numbers]; tauto)

theorem gives_drums (value : Json) :
    Gives (readDrums value path) fun d => Storable d.numbers [] :=
  (Gives.any _).bind fun r _ => (Gives.any _).bind fun _ _ =>
    (gives_list r path _ fun value path => gives_hit path value).bind fun _ _ =>
    (gives_number r path _ (finite_default (by simp [defaults]))).bind fun _ _ =>
    .pure (by simp [storable_iff, DrumTrack.numbers] at *; grind)

theorem gives_section (standIns : Json.Fields) (value : Json) :
    Gives (readSection standIns value path) fun s => Storable s.numbers s.lengths :=
  (Gives.any _).bind fun _ _ => (Gives.any _).bind fun _ _ =>
    (gives_positive _ path _ (by simp)).bind fun _ _ =>
    (gives_number _ path _ (finite_default (by simp [defaults]))).bind fun _ _ =>
    (Gives.any _).bind fun _ _ =>
    (gives_optional _ _ (gives_positive _ path _ (by simp))).bind fun _ _ =>
    (gives_list _ path _ fun value path => gives_track path value).bind fun _ _ =>
    (gives_optional _ _ (gives_drums _ _)).bind fun _ _ =>
    .pure (by simp [storable_iff, Section.numbers, Section.lengths] at *; grind)

end

theorem gives_sectionsFrom : ∀ (standIns : List Json.Fields) (index : Nat) (values : List Json),
    Gives (sectionsFrom standIns index values)
      fun sections => ∀ s ∈ sections, Storable (Section.numbers s) s.lengths
  | _, _, [] => .nil
  | standIns, index, value :: rest =>
    (gives_section _ _ value).bind fun _ hs =>
      (gives_sectionsFrom standIns.tail (index + 1) rest).bind fun _ hsections =>
      .cons hs hsections

theorem gives_sections (r : Record) (standIns : List Json.Fields) :
    Gives (readSections r standIns)
      fun sections => ∀ s ∈ sections, Storable (Section.numbers s) s.lengths := by
  unfold readSections
  split
  · exact .nil
  · exact gives_sectionsFrom _ _ _
  · exact .complain _ _ _

theorem gives_score (d : Schema.Document) :
    Gives (readScore d) fun s => Storable s.numbers s.lengths :=
  (Gives.any _).bind fun _ _ =>
    (gives_positive _ _ _ (finite_default (by simp [defaults]))).bind fun _ _ =>
    (Gives.any _).bind fun _ _ => (Gives.any _).bind fun _ _ =>
    (gives_sections _ _).bind fun _ _ =>
    .pure (by simp [storable_iff, Score.numbers, Score.lengths] at *; grind)

/-! ## Whole documents -/

/-- A document of the current version is let in as it is, even where migrations are registered. -/
theorem letIn_scoreFields (registry : Schema.Registry) (options : Schema.GateOptions)
    (s : Score Float) :
    Schema.letIn registry options { fields := scoreFields s }
      = .ok ⟨{ fields := scoreFields s }, none⟩ := by
  have hversion : ({ fields := scoreFields s } : Schema.Document).version
      = Schema.currentVersion := rfl
  have hcompatible : Schema.compatibility Schema.currentVersion Schema.currentVersion
      = .compatible := by
    decide +kernel
  unfold Schema.letIn
  simp [hversion, hcompatible, Schema.Compatibility.reason?]

theorem loads_score (registry : Schema.Registry) (options : LoadOptions) (s : Score Float) :
    load registry options (ofScore s)
      = match readScore { fields := scoreFields s } with
        | .error complaint => ⟨.error (.malformed complaint), []⟩
        | .ok score => ⟨.ok score, []⟩ := by
  have hversioned : versioned (ofScore s) = .ok { fields := scoreFields s } := rfl
  unfold load
  rw [hversioned]
  dsimp only
  rw [letIn_scoreFields]
  rfl

theorem load_storable (registry : Schema.Registry) (options : LoadOptions) {s : Score Float}
    (hs : Storable s.numbers s.lengths) : load registry options (ofScore s) = ⟨.ok s, []⟩ := by
  rw [loads_score, (reads_score s).ok hs]

/-- What loads was read from a document that was let in. -/
theorem storable_of_load {registry : Schema.Registry} {options : LoadOptions} {value : Json}
    {s : Score Float} (h : (load registry options value).outcome = .ok s) :
    Storable s.numbers s.lengths := by
  unfold load at h
  split at h
  · cases h
  · split at h
    · cases h
    · dsimp only at h
      split at h
      · cases h
      · next hread =>
        cases h
        exact gives_score _ _ hread

/-- **Documents keep scores.** If all numbers of a score are finite, and its tempos, numbers of bars
and durations are positive, then its document loads as the same score, without a warning; if not, it
is refused as malformed. And every score that loads, from whatever value, is one whose numbers are
such, so that it loads again when it is stored. This holds for any options and any migrations. -/
theorem load_ofScore (registry : Schema.Registry) (options : LoadOptions) :
    (∀ s : Score Float, Storable s.numbers s.lengths →
      load registry options (ofScore s) = ⟨.ok s, []⟩) ∧
    (∀ s : Score Float, ¬Storable s.numbers s.lengths →
      ∃ complaint, load registry options (ofScore s) = ⟨.error (.malformed complaint), []⟩) ∧
    ∀ value s, (load registry options value).outcome = .ok s →
      Storable s.numbers s.lengths ∧
        ∀ registry options, load registry options (ofScore s) = ⟨.ok s, []⟩ := by
  refine ⟨fun s hs => load_storable registry options hs, fun s hs => ?_, fun value s h => ?_⟩
  · obtain ⟨complaint, hread⟩ := (reads_score s).error hs
    exact ⟨complaint, by rw [loads_score, hread]⟩
  · have hs := storable_of_load h
    exact ⟨hs, fun registry options => load_storable registry options hs⟩

end LeadSheet.Document
