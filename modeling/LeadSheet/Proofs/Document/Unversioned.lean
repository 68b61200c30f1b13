import LeadSheet.Proofs.Document.Format
import LeadSheet.Proofs.Json.Names

/-!
# Documents that do not name a version

A document without a version is migrated before it is read: a section loses the fields that hold
`null` for a key, a tempo or drums, and the fields of its field `__proto__`, if that is an object,
come to stand behind its own. The first makes no difference to the readers, to whom `null` is a
missing field. The second does: what a section lacks it may inherit.

So such a document is judged, and read, as the one in which sections have what they inherit
(`asRead`), and this is the document itself wherever no section inherits anything
(`InheritsNothing`).
-/

namespace LeadSheet.Document

open Schema.Migration (isDropped keptFields legacy migrateSection standInField standInsOf)

/-! ## Sections that inherit fields -/

/-- A section as it is read, with the fields that it inherits behind its own. -/
def inheriting : Json → Json
  | .object fields => .object (keptFields fields ++ standInsOf (.object fields))
  | value => value

/-- The fields of a document in which sections have what they inherit. -/
def withInherited (fields : Json.Fields) : Json.Fields :=
  match fields.get? "sections" with
  | some (.array sections) => fields.put "sections" (.array (sections.map inheriting))
  | _ => fields

/-- The fields of a document as they are read. -/
def fieldsAsRead (fields : Json.Fields) : Json.Fields :=
  if ({ fields } : Schema.Document).version = Schema.legacyVersion then withInherited fields
  else fields

/-- A document as it is read. -/
def asRead : Json → Json
  | .object fields => .object (fieldsAsRead fields)
  | value => value

/-- No section has fields that stand in for those it lacks; in documents that name a version none
ever has. -/
def InheritsNothing (value : Json) : Prop :=
  ∀ (fields : Json.Fields) (sections : List Json), value = .object fields →
    ({ fields } : Schema.Document).version = Schema.legacyVersion →
    fields.get? "sections" = some (.array sections) → ∀ part ∈ sections, standInsOf part = []

/-- The readers of a section look at the values of its fields only. -/
theorem readSection_congr {standIns standIns' fields fields' : Json.Fields}
    (h : ∀ name, name ≠ standInField → ({ fields, standIns } : Record).get? name
      = ({ fields := fields', standIns := standIns' } : Record).get? name) (path : Path) :
    readSection standIns (.object fields) path = readSection standIns' (.object fields') path := by
  have hname := h "name" (by decide)
  have hbars := h "bars" (by decide)
  have hstart := h "start_bar" (by decide)
  have hkey := h "key" (by decide)
  have htempo := h "tempo" (by decide)
  have htracks := h "tracks" (by decide)
  have hdrums := h "drums" (by decide)
  simp only [readSection, asRecord, bind, Except.bind, string, positive, number, optional, list,
    hname, hbars, hstart, hkey, htempo, htracks, hdrums]

theorem readSection_migrateSection (value : Json) (path : Path) :
    readSection (standInsOf value) (migrateSection value) path
      = readSection [] (inheriting value) path := by
  cases value with
  | object fields =>
    refine readSection_congr (fun name _ => ?_) path
    unfold Record.get? Json.Fields.get?
    simp only [List.lookup_append, List.lookup_nil, Option.or_none]
  | _ => rfl

theorem sectionsFrom_migrated (index : Nat) (sections : List Json) :
    sectionsFrom (sections.map standInsOf) index (sections.map migrateSection)
      = itemsFrom (readSection []) [.field "sections"] index (sections.map inheriting) := by
  induction sections generalizing index with
  | nil => rfl
  | cons value sections ih =>
    simp only [List.map_cons, sectionsFrom, itemsFrom, List.headD_cons, List.tail_cons, ih,
      readSection_migrateSection]
    rfl

/-- Whether `null` counts as missing does not depend on the other fields. -/
theorem get?_congr {fields fields' : Json.Fields} {name : String}
    (h : fields.get? name = fields'.get? name) :
    ({ fields } : Record).get? name = ({ fields := fields' } : Record).get? name := by
  unfold Record.get?
  rw [h]

theorem null_of_isDropped {name : String} {value : Json} (h : isDropped (name, value) = true) :
    value = .null := by
  cases value with
  | null => rfl
  | _ => cases h

/-- A field that is dropped counts as missing anyway. -/
theorem get?_keptFields {fields : Json.Fields} (hnames : (fields.map (·.1)).Nodup) {name : String}
    (hname : name ≠ standInField) :
    ({ fields := keptFields fields } : Record).get? name = ({ fields } : Record).get? name := by
  induction fields with
  | nil => rfl
  | cons field fields ih =>
    obtain ⟨first, value⟩ := field
    rw [List.map_cons, List.nodup_cons] at hnames
    have ih := ih hnames.2
    unfold keptFields at ih ⊢
    rw [List.filter_cons]
    by_cases hfirst : name = first
    · subst hfirst
      split
      · exact get?_congr (by rw [Json.get?_cons, Json.get?_cons, if_pos rfl, if_pos rfl])
      · next hdropped =>
        -- the field holds `null`, and there is no second one behind it
        have hvalue : value = .null := null_of_isDropped (by simpa [hname] using hdropped)
        have hrest : ({ fields } : Record).get? name = none := by
          unfold Record.get?
          rw [Json.get?_of_not_mem hnames.1]
          rfl
        rw [ih, hrest, hvalue]
        unfold Record.get?
        rw [Json.get?_cons, if_pos rfl]
        rfl
    · have htail : ({ fields := (first, value) :: fields } : Record).get? name
          = ({ fields } : Record).get? name :=
        get?_congr (by rw [Json.get?_cons, if_neg hfirst])
      rw [htail, ← ih]
      split
      · exact get?_congr (by rw [Json.get?_cons, if_neg hfirst])
      · rfl

/-- Without fields to inherit, a section is read as it is: `null` is dropped where it would be
passed over, and what is called `__proto__` is looked at by nobody. -/
theorem readSection_inheriting {value : Json} (hnames : value.NamesOnce)
    (h : standInsOf value = []) (path : Path) :
    readSection [] (inheriting value) path = readSection [] value path := by
  cases value with
  | object fields =>
    refine readSection_congr (fun name hname => ?_) path
    rw [h, List.append_nil]
    exact get?_keptFields hnames.names hname
  | _ => rfl

theorem itemsFrom_inheriting {sections : List Json} (hnames : ∀ part ∈ sections, part.NamesOnce)
    (h : ∀ part ∈ sections, standInsOf part = []) (path : Path) (index : Nat) :
    itemsFrom (readSection []) path index (sections.map inheriting)
      = itemsFrom (readSection []) path index sections := by
  induction sections generalizing index with
  | nil => rfl
  | cons value sections ih =>
    rw [List.forall_mem_cons] at hnames h
    simp only [List.map_cons, itemsFrom, ih hnames.2 h.2, readSection_inheriting hnames.1 h.1]

/-! ## Documents -/

theorem get?_withInherited (fields : Json.Fields) {name : String} (h : name ≠ "sections") :
    (withInherited fields).get? name = fields.get? name := by
  unfold withInherited
  split
  · rw [Json.get?_put, if_neg h]
  · rfl

/-- The readers of a document look at the values of its fields only, the version apart. -/
theorem readScore_congr {d d' : Schema.Document}
    (h : ∀ name, name ≠ "_version" → name ≠ "sections" → d.fields.get? name = d'.fields.get? name)
    (hsections : readSections { fields := d.fields } d.standIns
      = readSections { fields := d'.fields } d'.standIns) : readScore d = readScore d' := by
  have hget : ∀ name, name ≠ "_version" → name ≠ "sections" →
      ({ fields := d.fields } : Record).get? name = ({ fields := d'.fields } : Record).get? name :=
    fun name hversion hother => get?_congr (h name hversion hother)
  have htitle := hget "title" (by decide) (by decide)
  have htempo := hget "tempo" (by decide) (by decide)
  have hkey := hget "key" (by decide) (by decide)
  have htime := hget "time_signature" (by decide) (by decide)
  simp only [readScore, string, positive, number, htitle, htempo, hkey, htime, hsections]

/-- **A migrated document reads as the one in which sections have what they inherit.** -/
theorem readScore_migrated (fields : Json.Fields) : ∃ d, legacy.apply { fields } = .ok d ∧
    readScore d = readScore { fields := withInherited fields } := by
  by_cases harray : ∃ sections, fields.get? "sections" = some (.array sections)
  · obtain ⟨sections, hsections⟩ := harray
    simp only [legacy, hsections]
    refine ⟨_, rfl, readScore_congr (fun name hversion hother => ?_) ?_⟩
    · rw [Json.get?_put, if_neg hversion, Json.get?_put, if_neg hother,
        get?_withInherited _ hother]
    · simp only [readSections, Record.get?, withInherited, hsections, Json.get?_put]
      simp [sectionsFrom_nil, sectionsFrom_migrated]
  · have hkept : withInherited fields = fields := by
      unfold withInherited
      split
      · next hsections => exact (harray ⟨_, hsections⟩).elim
      · rfl
    rw [hkept]
    unfold legacy
    dsimp only
    split
    · next hsections => exact (harray ⟨_, hsections⟩).elim
    · refine ⟨_, rfl, readScore_congr (fun name hversion _ => ?_) ?_⟩
      · rw [Json.get?_put, if_neg hversion]
      · simp only [readSections, Record.get?, Json.get?_put]
        simp

theorem readScore_withInherited {fields : Json.Fields} (hnames : (Json.object fields).NamesOnce)
    (h : ∀ sections, fields.get? "sections" = some (.array sections) →
      ∀ part ∈ sections, standInsOf part = []) :
    readScore { fields := withInherited fields } = readScore { fields } := by
  unfold withInherited
  split
  · next sections hsections =>
    have hparts := (hnames.values _ (Json.mem_of_get? hsections)).items
    refine readScore_congr (fun name _ hother => ?_) ?_
    · rw [Json.get?_put, if_neg hother]
    · simp only [readSections, Record.get?, Json.get?_put, hsections]
      simp [sectionsFrom_nil, itemsFrom_inheriting hparts (h sections hsections)]
  · rfl

/-! ## Letting documents in -/

theorem compatibility_legacy :
    Schema.compatibility Schema.legacyVersion Schema.currentVersion = .outdated := by
  decide +kernel

/-- The check lets an unversioned document in, migrated if that is asked for. -/
theorem letIn_unversioned {fields : Json.Fields}
    (h : ({ fields } : Schema.Document).version = Schema.legacyVersion) :
    ∃ d, Schema.letIn .standard ⟨false, true⟩ { fields } = .ok ⟨d, none⟩ ∧
      readScore d = readScore { fields := withInherited fields } := by
  have hpath : Schema.Registry.findPath .standard Schema.legacyVersion Schema.currentVersion
      = .ok [legacy] := rfl
  have hother : Schema.legacyVersion ≠ Schema.currentVersion := by decide
  obtain ⟨d, happly, hread⟩ := readScore_migrated fields
  refine ⟨d, ?_, hread⟩
  simp [Schema.letIn, Schema.migrateToCurrent, Schema.Registry.migrate, h, compatibility_legacy,
    hpath, hother, Schema.Compatibility.reason?, Except.bind, happly]

/-- A document of a compatible version is let in as it is: the only migration is of documents that
are not. -/
theorem letIn_compatible {fields : Json.Fields}
    (h : Schema.compatibility ({ fields } : Schema.Document).version Schema.currentVersion
      = .compatible) :
    Schema.letIn .standard ⟨false, true⟩ { fields } = .ok ⟨{ fields }, none⟩ := by
  have hversion : Schema.legacyVersion ≠ ({ fields } : Schema.Document).version := by
    intro heq
    rw [← heq, compatibility_legacy] at h
    cases h
  have hpath : ({ fields } : Schema.Document).version ≠ Schema.currentVersion →
      Schema.Registry.path? .standard ({ fields } : Schema.Document).version Schema.currentVersion
        = none := fun hcurrent => by
    simp [Schema.Registry.path?, Schema.Registry.standard, Schema.Registry.search,
      Schema.Registry.expand, legacy, hcurrent, hversion]
  simp only [Schema.letIn, h, Schema.Compatibility.reason?]
  split
  · next hmigrated =>
    simp only [Bool.true_and, Bool.and_eq_true, decide_eq_true_eq] at hmigrated
    simp [Schema.Registry.hasPath, hmigrated.1, hpath hmigrated.1] at hmigrated
  · rfl

theorem letIn_unmigrated (registry : Schema.Registry) (d : Schema.Document) :
    ∃ warning?, Schema.letIn registry ⟨false, false⟩ d = .ok ⟨d, warning?⟩ := by
  unfold Schema.letIn
  dsimp only
  split <;> exact ⟨_, rfl⟩

/-! ## Reading documents as they are -/

/-- Reads a value as a document of the current version, whatever version it names. -/
def readCurrent (value : Json) : Except Complaint (Score Float) := versioned value >>= readScore

theorem judges_readCurrent (value : Json) :
    Judges (readCurrent value) [] (Breaks scoreFormat value) := by
  unfold readCurrent versioned
  rw [bind_assoc]
  refine judges_record [] fun fields => ?_
  simp only [List.exists_mem_cons_iff, List.not_mem_nil, false_and, exists_false, false_or]
  split
  · next hget =>
    exact (judges_missing hget ()).bind fun _ => judges_score fields
  · next hget =>
    have hkept : Judges (.ok ()) [] (FieldBreaks { fields } false "_version" .version) :=
      judges_kept (by trivial) hget (by simp [Format.rules, Rule.accepts])
    exact hkept.bind fun _ => judges_score fields
  · next value hne hget =>
    have haccepts : Rule.versionString.accepts value = false := by
      cases value with
      | string text => exact absurd rfl (hne text)
      | _ => rfl
    exact .complain (.inl (.here hget List.mem_cons_self haccepts))

theorem eq_of_versioned {fields : Json.Fields} {d : Schema.Document}
    (h : versioned (.object fields) = .ok d) : d = { fields } := by
  unfold versioned at h
  simp only [asRecord, bind, Except.bind] at h
  split at h <;> cases h <;> rfl

theorem versioned_congr {fields fields' : Json.Fields}
    (h : fields.get? "_version" = fields'.get? "_version") :
    versioned (.object fields')
      = (versioned (.object fields)).map fun _ => { fields := fields' } := by
  simp only [versioned, asRecord, bind, Except.bind, get?_congr h]
  split <;> rfl

/-- What is inherited makes no difference to whether the version is a string. -/
theorem readCurrent_fieldsAsRead (fields : Json.Fields) :
    readCurrent (asRead (.object fields)) =
      (versioned (.object fields)).bind fun _ => readScore { fields := fieldsAsRead fields } := by
  have hversion : fields.get? "_version" = (fieldsAsRead fields).get? "_version" := by
    unfold fieldsAsRead
    split
    · exact (get?_withInherited fields (by decide)).symm
    · rfl
  rw [asRead, readCurrent, versioned_congr hversion]
  cases versioned (.object fields) <;> rfl

/-- Where nothing is inherited, a document is read as it is. -/
theorem readCurrent_asRead {value : Json} (hnames : value.NamesOnce) (h : InheritsNothing value) :
    readCurrent (asRead value) = readCurrent value := by
  cases value with
  | object fields =>
    rw [readCurrent_fieldsAsRead, readCurrent]
    cases hversioned : versioned (.object fields) with
    | error complaint => rfl
    | ok d =>
      obtain rfl := eq_of_versioned hversioned
      change readScore { fields := fieldsAsRead fields } = readScore { fields }
      unfold fieldsAsRead
      split
      · next hversion =>
        exact readScore_withInherited hnames fun sections => h fields sections rfl hversion
      · rfl
  | _ => rfl

/-! ## Loading -/

/-- The version of a document, if it names one, is one that loads. -/
def Supported (value : Json) : Prop :=
  ∀ version, value.get? "_version" = some (.string version) →
    version = Schema.legacyVersion ∨
      Schema.compatibility version Schema.currentVersion = .compatible

theorem Supported.version {fields : Json.Fields} (h : Supported (.object fields)) :
    ({ fields } : Schema.Document).version = Schema.legacyVersion ∨
      Schema.compatibility ({ fields } : Schema.Document).version Schema.currentVersion
        = .compatible := by
  unfold Schema.Document.version Schema.Document.version?
  split
  · next version hget => exact h version hget
  · exact .inl rfl

section

variable {registry : Schema.Registry} {options : LoadOptions} {fields : Json.Fields}

theorem load_of_versioned {complaint : Complaint} {value : Json}
    (h : versioned value = .error complaint) :
    load registry options value = ⟨.error (.malformed complaint), []⟩ := by
  unfold load
  rw [h]

theorem load_of_letIn {admitted : Schema.Admitted}
    (hversioned : versioned (.object fields) = .ok { fields })
    (h : Schema.letIn registry ⟨options.strict, options.migrate⟩ { fields } = .ok admitted) :
    load registry options (.object fields)
      = ⟨(readScore admitted.document).mapError .malformed, admitted.warning?.toList⟩ := by
  unfold load
  rw [hversioned]
  dsimp only
  rw [h]
  dsimp only
  cases readScore admitted.document <;> rfl

end

/-- Loading a document is reading it with what its sections inherit. -/
theorem load_supported {value : Json} (h : Supported value) :
    load .standard {} value = ⟨(readCurrent (asRead value)).mapError .malformed, []⟩ := by
  cases value with
  | object fields =>
    rw [readCurrent_fieldsAsRead]
    cases hversioned : versioned (.object fields) with
    | error complaint => exact load_of_versioned hversioned
    | ok d =>
      obtain rfl := eq_of_versioned hversioned
      change _ = Loaded.mk ((readScore { fields := fieldsAsRead fields }).mapError .malformed) []
      unfold fieldsAsRead
      split
      · next hversion =>
        obtain ⟨d, hadmitted, hread⟩ := letIn_unversioned hversion
        rw [load_of_letIn hversioned hadmitted, ← hread]
        rfl
      · next hversion =>
        rw [load_of_letIn hversioned (letIn_compatible (h.version.resolve_left hversion))]
        rfl
  | _ => exact load_of_versioned rfl

/-- A text whose document inherits nothing is read as it is. -/
theorem loadText_supported {text : List Char} {value : Json} (h : Json.ofText? text = some value)
    (hversion : Supported value) (hinherits : InheritsNothing value) :
    loadText .standard {} text = ⟨(readCurrent value).mapError .malformed, []⟩ := by
  unfold loadText
  rw [h]
  dsimp only
  rw [load_supported hversion, readCurrent_asRead (Json.namesOnce_of_ofText? h) hinherits]

/-- Without migration a document is read as it is, whatever version it names. -/
theorem load_unmigrated (registry : Schema.Registry) (value : Json) :
    (load registry { migrate := false } value).outcome
      = (readCurrent value).mapError .malformed := by
  cases value with
  | object fields =>
    unfold readCurrent
    cases hversioned : versioned (.object fields) with
    | error complaint =>
      rw [load_of_versioned hversioned]
      rfl
    | ok d =>
      obtain rfl := eq_of_versioned hversioned
      obtain ⟨warning?, hadmitted⟩ := letIn_unmigrated registry { fields }
      rw [load_of_letIn hversioned hadmitted]
      rfl
  | _ =>
    rw [load_of_versioned rfl]
    rfl

/-! ## What loads -/

/-- A document is judged by its format: a score comes out if nothing in it breaks a rule, and else
the complaint is of a rule that is broken, with the path that leads there. -/
structure Judged (outcome : Except LoadError (Score Float)) (value : Json) : Prop where
  accepts : (∃ s, outcome = .ok s) ↔ ∀ path rule, ¬Breaks scoreFormat value path rule
  blames : ∀ error, outcome = .error error →
    ∃ complaint, error = .malformed complaint ∧
      Breaks scoreFormat value complaint.path complaint.rule

theorem judged_mapError {read : Except Complaint (Score Float)} {value : Json}
    (h : Judges read [] (Breaks scoreFormat value)) : Judged (read.mapError .malformed) value := by
  cases read with
  | ok s => exact ⟨⟨fun _ => h.accepts s rfl, fun _ => ⟨s, rfl⟩⟩, nofun⟩
  | error complaint =>
    obtain ⟨rest, hpath, hbroken⟩ := h.blames complaint rfl
    have hbroken : Breaks scoreFormat value complaint.path complaint.rule := hpath ▸ hbroken
    refine ⟨⟨nofun, fun hkept => (hkept _ _ hbroken).elim⟩, ?_⟩
    rintro error ⟨⟩
    exact ⟨complaint, rfl, hbroken⟩

/-- **Documents are judged by their format.** A document that names no version, the version of
unversioned documents or a compatible one is judged with what its sections inherit, and so as it is
if they inherit nothing. -/
theorem load_judged {value : Json} (hnames : value.NamesOnce) (hversion : Supported value) :
    Judged (load .standard {} value).outcome (asRead value) ∧
      (InheritsNothing value → Judged (load .standard {} value).outcome value) := by
  rw [load_supported hversion]
  refine ⟨judged_mapError (judges_readCurrent _), fun h => ?_⟩
  rw [readCurrent_asRead hnames h]
  exact judged_mapError (judges_readCurrent value)

/-- A document of one section that names no version. -/
def ofOneSection (fields : Json.Fields) : Json := .object [("sections", .array [.object fields])]

/-- A section with a field that holds `null`, and one that is not part of the format. -/
def nullKey : Json :=
  ofOneSection [("name", .string "Verse"), ("bars", .number 4), ("key", .null),
    ("mood", .string "calm")]

theorem inheritsNothing_nullKey : InheritsNothing nullKey := by
  rintro fields sections ⟨⟩ - ⟨⟩ part hpart
  rw [List.mem_singleton.mp hpart]
  rfl

theorem load_judged_nullKey :
    nullKey.NamesOnce ∧ Supported nullKey ∧ InheritsNothing nullKey ∧
      Judged (load .standard {} nullKey).outcome nullKey := by
  have hnames : nullKey.NamesOnce := by simp [nullKey, ofOneSection]
  have hversion : Supported nullKey := nofun
  exact ⟨hnames, hversion, inheritsNothing_nullKey,
    (load_judged hnames hversion).2 inheritsNothing_nullKey⟩

/-- A section without a name of its own. -/
def borrowedName : Json :=
  ofOneSection [("bars", .number 4), ("__proto__", .object [("name", .string "Verse")])]

/-- A section that inherits its name loads, although the name is missing. -/
theorem borrowedName_not_judged :
    borrowedName.NamesOnce ∧ borrowedName.get? "_version" = none ∧
      Breaks scoreFormat borrowedName [.field "sections", .item 0, .field "name"] .string ∧
      ¬Judged (load .standard {} borrowedName).outcome borrowedName := by
  have hnames : borrowedName.NamesOnce := by simp [borrowedName, ofOneSection]
  have hbreaks :
      Breaks scoreFormat borrowedName [.field "sections", .item 0, .field "name"] .string := by
    have hsections : ("sections", Format.array sectionFormat) ∈
        [] ++ ("_version", .version) :: contentFields := by
      simp [contentFields]
    exact .field hsections rfl (.item rfl (.missing List.mem_cons_self rfl List.mem_cons_self))
  have hloads : (load .standard {} borrowedName).outcome.toOption.isSome = true := by
    decide +kernel
  refine ⟨hnames, rfl, hbreaks, fun h => ?_⟩
  cases houtcome : (load .standard {} borrowedName).outcome with
  | ok s => exact h.accepts.mp ⟨s, houtcome⟩ _ _ hbreaks
  | error error =>
    rw [houtcome] at hloads
    cases hloads

/-- **Migration changes no score but by what is inherited.** A document of a version that loads
gives the same score, or the same complaint, when its sections get what they inherit first and it is
then loaded without migration; and if they inherit nothing, it gives the same without migration. -/
theorem load_migrated {value : Json} (hnames : value.NamesOnce) (hversion : Supported value) :
    ∃ read : Except Complaint (Score Float),
      (load .standard {} value).outcome = read.mapError .malformed ∧
      (load .standard { migrate := false } (asRead value)).outcome = read.mapError .malformed ∧
      (InheritsNothing value →
        (load .standard { migrate := false } value).outcome = read.mapError .malformed) := by
  refine ⟨readCurrent (asRead value), ?_, load_unmigrated .standard (asRead value), fun h => ?_⟩
  · rw [load_supported hversion]
  · rw [load_unmigrated, readCurrent_asRead hnames h]

theorem load_migrated_nullKey :
    nullKey.NamesOnce ∧ Supported nullKey ∧ InheritsNothing nullKey ∧
      (load .standard {} nullKey).outcome
        = (load .standard { migrate := false } nullKey).outcome := by
  have hnames : nullKey.NamesOnce := by simp [nullKey, ofOneSection]
  have hversion : Supported nullKey := nofun
  obtain ⟨read, hmigrated, -, hunmigrated⟩ := load_migrated hnames hversion
  exact ⟨hnames, hversion, inheritsNothing_nullKey,
    hmigrated.trans (hunmigrated inheritsNothing_nullKey).symm⟩

/-- A section without a key of its own. -/
def borrowedKey : Json :=
  ofOneSection [("name", .string "Verse"), ("bars", .number 4),
    ("__proto__", .object [("key", .string "Am")])]

/-- A section that inherits its key has none without migration. -/
theorem borrowedKey_needs_migration :
    borrowedKey.NamesOnce ∧ borrowedKey.get? "_version" = none ∧
      (load .standard {} borrowedKey).outcome
        ≠ (load .standard { migrate := false } borrowedKey).outcome := by
  have hnames : borrowedKey.NamesOnce := by simp [borrowedKey, ofOneSection]
  have hmigrated : (load .standard {} borrowedKey).outcome.toOption.map
      (fun s => s.sections.map (·.key)) = some [some "Am"] := by
    decide +kernel
  have hunmigrated : (load .standard { migrate := false } borrowedKey).outcome.toOption.map
      (fun s => s.sections.map (·.key)) = some [none] := by
    decide +kernel
  refine ⟨hnames, rfl, fun heq => ?_⟩
  rw [heq, hunmigrated] at hmigrated
  cases hmigrated

end LeadSheet.Document
