import LeadSheet.Proofs.Document.Storable

/-!
# The format of documents

What a document has to be is written down here apart from the readers, as data: which fields an
object must have, which it may have, and what each of them has to be (`scoreFormat`). A value breaks
a rule of its format either itself or in a part, to which a path leads (`Breaks`). Fields that the
format does not name are no part of it.

Every reader judges by the format (`Judges`): it accepts a value if nothing in it breaks a rule, and
else complains of a rule that is broken, at the place where it is broken. There is one lemma for
each kind of field and one for each part of a score; they go through `>>=`, as the readers do, and
collect what the fields read so far can have broken.
-/

namespace LeadSheet.Document

/-! ## Formats -/

/-- What a value has to be. Of an object, the fields that have to be there come before those that
need not. -/
inductive Format where
  | version
  | number
  | positiveNumber
  | string
  | array (item : Format)
  | object (required optional : List (String × Format))

/-- The rules for a value itself, its parts aside. -/
def Format.rules : Format → List Rule
  | version => [.versionString]
  | number => [.number]
  | positiveNumber => [.number, .positiveNumber]
  | string => [.string]
  | array _ => [.array]
  | object _ _ => [.object]

/-- Whether a value keeps a rule. -/
def Rule.accepts : Rule → Json → Bool
  | .object, .object _ | .array, .array _ | .string, .string _ | .versionString, .string _ => true
  | .number, .number x => Scalar.isFinite x
  | .positiveNumber, .number x => Scalar.isFinite x && decide (0 < x)
  | _, _ => false

def noteFormat : Format :=
  .object [("pitch", .number), ("start", .number), ("duration", .positiveNumber)]
    [("velocity", .number)]

def chordFormat : Format :=
  .object
    [("root", .string), ("quality", .string), ("octave", .number), ("start", .number),
      ("duration", .positiveNumber)]
    [("velocity", .number)]

def trackFormat : Format :=
  .object [("name", .string), ("instrument", .string)]
    [("notes", .array noteFormat), ("chords", .array chordFormat), ("volume", .number),
      ("pan", .number)]

def hitFormat : Format := .object [("drum", .string), ("start", .number)] [("velocity", .number)]

def drumsFormat : Format :=
  .object [] [("name", .string), ("hits", .array hitFormat), ("volume", .number)]

def sectionFormat : Format :=
  .object [("name", .string), ("bars", .positiveNumber)]
    [("start_bar", .number), ("key", .string), ("tempo", .positiveNumber),
      ("tracks", .array trackFormat), ("drums", drumsFormat)]

/-- The fields that hold a score. -/
def contentFields : List (String × Format) :=
  [("title", .string), ("tempo", .positiveNumber), ("key", .string), ("time_signature", .string),
    ("sections", .array sectionFormat)]

/-- The format of a score's document. -/
def scoreFormat : Format := .object [] (("_version", .version) :: contentFields)

/-- In a value that should have a format, a path leads to what breaks a rule: to a value that does
not keep the rule, or to a required field that is missing. A field that holds `null` is missing. -/
inductive Breaks : Format → Json → Path → Rule → Prop where
  | here {format : Format} {value : Json} {rule : Rule} :
    rule ∈ format.rules → rule.accepts value = false → Breaks format value [] rule
  | missing {required optional : List (String × Format)} {fields : Json.Fields} {name : String}
      {format : Format} {rule : Rule} :
    (name, format) ∈ required → ({ fields } : Record).get? name = none → rule ∈ format.rules →
    Breaks (.object required optional) (.object fields) [.field name] rule
  | field {required optional : List (String × Format)} {fields : Json.Fields} {name : String}
      {format : Format} {value : Json} {path : Path} {rule : Rule} :
    (name, format) ∈ required ++ optional → ({ fields } : Record).get? name = some value →
    Breaks format value path rule →
    Breaks (.object required optional) (.object fields) (.field name :: path) rule
  | item {format : Format} {items : List Json} {index : Nat} {value : Json} {path : Path}
      {rule : Rule} :
    items[index]? = some value → Breaks format value path rule →
    Breaks (.array format) (.array items) (.item index :: path) rule

/-- A path leads from a record through one of its fields to what breaks a rule. -/
def FieldBreaks (r : Record) (required : Bool) (name : String) (format : Format) (path : Path)
    (rule : Rule) : Prop :=
  match r.get? name with
  | none => required = true ∧ path = [.field name] ∧ rule ∈ format.rules
  | some value => ∃ rest, path = .field name :: rest ∧ Breaks format value rest rule

section

variable {r : Record} {required : Bool} {name : String} {format : Format} {path : Path}
  {rule : Rule}

theorem fieldBreaks_of_none (h : r.get? name = none) :
    FieldBreaks r required name format path rule ↔
      required = true ∧ path = [.field name] ∧ rule ∈ format.rules := by
  unfold FieldBreaks
  rw [h]

theorem fieldBreaks_of_some {value : Json} (h : r.get? name = some value) :
    FieldBreaks r required name format path rule ↔
      ∃ rest, path = .field name :: rest ∧ Breaks format value rest rule := by
  unfold FieldBreaks
  rw [h]

/-- A value that is there breaks a rule itself. -/
theorem FieldBreaks.here {value : Json} (h : r.get? name = some value)
    (hrule : rule ∈ format.rules) (haccepts : rule.accepts value = false) :
    FieldBreaks r required name format [.field name] rule :=
  (fieldBreaks_of_some h).mpr ⟨[], rfl, .here hrule haccepts⟩

theorem FieldBreaks.missing (h : r.get? name = none) (hrequired : required = true)
    (hrule : rule ∈ format.rules) : FieldBreaks r required name format [.field name] rule :=
  (fieldBreaks_of_none h).mpr ⟨hrequired, rfl, hrule⟩

end

/-- What is broken in an object is broken in one of the fields of its format. -/
theorem breaks_object_iff {required optional : List (String × Format)} {fields : Json.Fields}
    {path : Path} {rule : Rule} :
    Breaks (.object required optional) (.object fields) path rule ↔
      (∃ field ∈ required, FieldBreaks { fields } true field.1 field.2 path rule) ∨
        ∃ field ∈ optional, FieldBreaks { fields } false field.1 field.2 path rule := by
  constructor
  · intro h
    cases h with
    | here hrule haccepts =>
      rw [List.mem_singleton.mp hrule] at haccepts
      cases haccepts
    | missing hmem hget hrule => exact .inl ⟨_, hmem, .missing hget rfl hrule⟩
    | field hmem hget hbreaks =>
      rcases List.mem_append.mp hmem with hmem | hmem
      · exact .inl ⟨_, hmem, (fieldBreaks_of_some hget).mpr ⟨_, rfl, hbreaks⟩⟩
      · exact .inr ⟨_, hmem, (fieldBreaks_of_some hget).mpr ⟨_, rfl, hbreaks⟩⟩
  · have hpresent : ∀ {field : String × Format} {need : Bool} {value : Json},
        field ∈ required ++ optional → ({ fields } : Record).get? field.1 = some value →
        FieldBreaks { fields } need field.1 field.2 path rule →
        Breaks (.object required optional) (.object fields) path rule := by
      intro field need value hmem hget hbreaks
      obtain ⟨rest, rfl, hpart⟩ := (fieldBreaks_of_some hget).mp hbreaks
      exact .field hmem hget hpart
    rintro (⟨field, hmem, hbreaks⟩ | ⟨field, hmem, hbreaks⟩)
    · cases hget : ({ fields } : Record).get? field.1 with
      | some value => exact hpresent (List.mem_append_left _ hmem) hget hbreaks
      | none =>
        obtain ⟨-, rfl, hrule⟩ := (fieldBreaks_of_none hget).mp hbreaks
        exact .missing hmem hget hrule
    · cases hget : ({ fields } : Record).get? field.1 with
      | some value => exact hpresent (List.mem_append_right _ hmem) hget hbreaks
      | none => cases ((fieldBreaks_of_none hget).mp hbreaks).1

/-- What is broken in an array is broken in one of its items. -/
theorem breaks_array_iff {format : Format} {items : List Json} {path : Path} {rule : Rule} :
    Breaks (.array format) (.array items) path rule ↔
      ∃ index value rest, items[index]? = some value ∧ path = .item index :: rest ∧
        Breaks format value rest rule := by
  constructor
  · intro h
    cases h with
    | here hrule haccepts =>
      rw [List.mem_singleton.mp hrule] at haccepts
      cases haccepts
    | item hitem hbreaks => exact ⟨_, _, _, hitem, rfl, hbreaks⟩
  · rintro ⟨index, value, rest, hitem, rfl, hbreaks⟩
    exact .item hitem hbreaks

/-! ## Readers that judge by a format -/

variable {β γ : Type}

/-- A reader accepts if nothing is broken, and else complains of something that is. `broken` speaks
of paths from the value that the reader was given; its own path leads there. -/
structure Judges (read : Except Complaint β) (path : Path) (broken : Path → Rule → Prop) :
    Prop where
  accepts : ∀ x, read = .ok x → ∀ rest rule, ¬broken rest rule
  blames : ∀ complaint, read = .error complaint →
    ∃ rest, complaint.path = path ++ rest ∧ broken rest complaint.rule

namespace Judges

variable {read : Except Complaint β} {f : β → Except Complaint γ} {path : Path}
  {broken others : Path → Rule → Prop}

theorem accept {x : β} (h : ∀ rest rule, ¬broken rest rule) : Judges (.ok x) path broken :=
  ⟨fun _ _ => h, nofun⟩

theorem complain {name : String} {rule : Rule} (h : broken [.field name] rule) :
    Judges (Document.complain path name rule : Except Complaint β) path broken :=
  ⟨nofun, fun _ hread => Except.error.inj hread ▸ ⟨_, rfl, h⟩⟩

theorem congr (h : Judges read path broken)
    (hiff : ∀ rest rule, broken rest rule ↔ others rest rule) : Judges read path others where
  accepts x hx rest rule hbroken := h.accepts x hx rest rule ((hiff rest rule).mpr hbroken)
  blames complaint hread := by
    obtain ⟨rest, hpath, hbroken⟩ := h.blames complaint hread
    exact ⟨rest, hpath, (hiff rest _).mp hbroken⟩

theorem pure (x : β) : Judges (Pure.pure x) path fun _ _ => False := accept fun _ _ => id

theorem bind (h : Judges read path broken) (h' : ∀ x, Judges (f x) path others) :
    Judges (read >>= f) path fun rest rule => broken rest rule ∨ others rest rule := by
  cases hread : read with
  | error complaint =>
    obtain ⟨rest, hpath, hbroken⟩ := h.blames complaint hread
    exact ⟨nofun, fun _ herror => Except.error.inj herror ▸ ⟨rest, hpath, .inl hbroken⟩⟩
  | ok x =>
    refine ⟨fun y hy rest rule => ?_, fun complaint herror => ?_⟩
    · rintro (hbroken | hbroken)
      · exact h.accepts x hread rest rule hbroken
      · exact (h' x).accepts y hy rest rule hbroken
    · obtain ⟨rest, hpath, hbroken⟩ := (h' x).blames complaint herror
      exact ⟨rest, hpath, .inr hbroken⟩

theorem map (h : Judges read path broken) (g : β → γ) : Judges (read.map g) path broken := by
  cases hread : read with
  | error complaint => exact ⟨nofun, fun _ herror => Except.error.inj herror ▸ h.blames _ hread⟩
  | ok x => exact accept (h.accepts x hread)

/-- A reader of a part. -/
theorem under {steps : Path} (h : Judges read (path ++ steps) broken) :
    Judges read path fun rest rule => ∃ tail, rest = steps ++ tail ∧ broken tail rule where
  accepts x hx _ rule hbroken := by
    obtain ⟨tail, -, hbroken⟩ := hbroken
    exact h.accepts x hx tail rule hbroken
  blames complaint hread := by
    obtain ⟨tail, hpath, hbroken⟩ := h.blames complaint hread
    exact ⟨steps ++ tail, by rw [hpath, List.append_assoc], tail, rfl, hbroken⟩

end Judges

/-! ## Fields -/

/-- A format of values without parts. -/
def Format.IsLeaf : Format → Prop
  | array _ | object _ _ => False
  | _ => True

theorem Breaks.of_isLeaf {format : Format} {value : Json} {path : Path} {rule : Rule}
    (h : Breaks format value path rule) (hleaf : format.IsLeaf) :
    rule ∈ format.rules ∧ rule.accepts value = false := by
  cases h with
  | here hrule haccepts => exact ⟨hrule, haccepts⟩
  | missing | field | item => exact hleaf.elim

section

variable {r : Record} {name : String} {format : Format} {path : Path} {β : Type}

/-- A value without parts is accepted if it keeps its rules. -/
theorem judges_kept {required : Bool} {value : Json} (hleaf : format.IsLeaf)
    (hget : r.get? name = some value) (h : ∀ rule ∈ format.rules, rule.accepts value = true)
    {x : β} : Judges (.ok x) path (FieldBreaks r required name format) := by
  refine .accept fun rest rule hbroken => ?_
  obtain ⟨tail, -, hbreaks⟩ := (fieldBreaks_of_some hget).mp hbroken
  obtain ⟨hrule, haccepts⟩ := hbreaks.of_isLeaf hleaf
  exact Bool.false_ne_true (haccepts.symm.trans (h rule hrule))

/-- A field that need not be there may be missing. -/
theorem judges_missing (hget : r.get? name = none) (x : β) :
    Judges (.ok x) path (FieldBreaks r false name format) :=
  .accept fun _ _ hbroken => by cases ((fieldBreaks_of_none hget).mp hbroken).1

end

section

variable {β : Type} (r : Record) (path : Path) (name : String)

theorem judges_string (default? : Option String) :
    Judges (string r path name default?) path
      (FieldBreaks r default?.isNone name .string) := by
  unfold string
  split
  · next text hget =>
    exact judges_kept (by trivial) hget (by simp [Format.rules, Rule.accepts])
  · next value hne hget =>
    have haccepts : Rule.string.accepts value = false := by
      cases value with
      | string text => exact absurd rfl (hne text)
      | _ => rfl
    exact .complain (.here hget List.mem_cons_self haccepts)
  · next default hget => exact judges_missing hget default
  · next hget => exact .complain (.missing hget rfl List.mem_cons_self)

theorem judges_number (default? : Option Float) :
    Judges (number r path name default?) path
      (FieldBreaks r default?.isNone name .number) := by
  unfold number
  split
  · next x hget =>
    split
    · next hfinite =>
      exact judges_kept (by trivial) hget (by simpa [Format.rules, Rule.accepts] using hfinite)
    · next hfinite =>
      exact .complain (.here hget List.mem_cons_self (Bool.eq_false_iff.mpr hfinite))
  · next value hne hget =>
    have haccepts : Rule.number.accepts value = false := by
      cases value with
      | number x => exact absurd rfl (hne x)
      | _ => rfl
    exact .complain (.here hget List.mem_cons_self haccepts)
  · next default hget => exact judges_missing hget default
  · next hget => exact .complain (.missing hget rfl List.mem_cons_self)

/-- A number that was read was there, or is the default. -/
theorem get?_of_number_eq_ok {default? : Option Float} {x : Float}
    (h : number r path name default? = .ok x) :
    (r.get? name = some (.number x) ∧ Scalar.isFinite x = true) ∨
      (r.get? name = none ∧ default? = some x) := by
  unfold number at h
  split at h
  · next y hget =>
    split at h
    · next hfinite =>
      cases h
      exact .inl ⟨hget, hfinite⟩
    · cases h
  · cases h
  · next default hget =>
    cases h
    exact .inr ⟨hget, rfl⟩
  · cases h

/-- What is no number is no positive number. -/
theorem FieldBreaks.positive {r : Record} {required : Bool} {name : String} {rest : Path}
    {rule : Rule} (h : FieldBreaks r required name .number rest rule) :
    FieldBreaks r required name .positiveNumber rest rule := by
  have hrules : ∀ rule ∈ Format.number.rules, rule ∈ Format.positiveNumber.rules := by decide
  cases hget : r.get? name with
  | none =>
    obtain ⟨hrequired, rfl, hrule⟩ := (fieldBreaks_of_none hget).mp h
    exact .missing hget hrequired (hrules _ hrule)
  | some value =>
    obtain ⟨tail, rfl, hbreaks⟩ := (fieldBreaks_of_some hget).mp h
    cases hbreaks with
    | here hrule haccepts => exact .here hget (hrules _ hrule) haccepts

theorem judges_positive {default? : Option Float} (hdefault : ∀ x ∈ default?, ¬x ≤ 0) :
    Judges (positive r path name default?) path
      (FieldBreaks r default?.isNone name .positiveNumber) := by
  unfold positive
  cases hnumber : number r path name default? with
  | error complaint =>
    obtain ⟨rest, hpath, hbroken⟩ := (judges_number r path name default?).blames complaint hnumber
    exact ⟨nofun, fun _ herror => Except.error.inj herror ▸ ⟨rest, hpath, hbroken.positive⟩⟩
  | ok x =>
    change Judges (if x ≤ 0 then complain path name .positiveNumber else .ok x) _ _
    rcases get?_of_number_eq_ok r path name hnumber with ⟨hget, hfinite⟩ | ⟨hget, rfl⟩
    · by_cases hx : x ≤ 0
      · have hpos : ¬0 < x := fun hpos => (pos_iff hfinite).mp hpos hx
        rw [if_pos hx]
        exact .complain (.here hget (by simp [Format.rules]) (by simp [Rule.accepts, hpos]))
      · have hpos : 0 < x := (pos_iff hfinite).mpr hx
        rw [if_neg hx]
        exact judges_kept (by trivial) hget (by simp [Format.rules, Rule.accepts, hfinite, hpos])
    · rw [if_neg (hdefault x rfl)]
      exact judges_missing hget x

theorem judges_itemsFrom {read : Json → Path → Except Complaint β} {format : Format}
    (h : ∀ value path, Judges (read value path) path (Breaks format value)) :
    ∀ (index : Nat) (values : List Json),
      Judges (itemsFrom read path index values) path fun rest rule =>
        ∃ i value tail, values[i]? = some value ∧ rest = .item (index + i) :: tail ∧
          Breaks format value tail rule
  | _, [] => .accept (by simp)
  | index, value :: values => by
    have hhere := (h value (path ++ [.item index])).under
    have hrest := judges_itemsFrom h (index + 1) values
    rw [itemsFrom]
    refine (hhere.bind fun _ => hrest.bind fun _ => .pure _).congr fun rest rule => ?_
    constructor
    · rintro (⟨tail, rfl, hbreaks⟩ | ⟨i, item, tail, hitem, rfl, hbreaks⟩ | ⟨⟨⟩⟩)
      · exact ⟨0, value, tail, rfl, rfl, hbreaks⟩
      · exact ⟨i + 1, item, tail, hitem, by rw [Nat.add_right_comm]; rfl, hbreaks⟩
    · rintro ⟨_ | i, item, tail, hitem, rfl, hbreaks⟩
      · cases hitem
        exact .inl ⟨tail, rfl, hbreaks⟩
      · exact .inr (.inl ⟨i, item, tail, hitem, by rw [Nat.add_right_comm]; rfl, hbreaks⟩)

theorem judges_list {read : Json → Path → Except Complaint β} {format : Format}
    (h : ∀ value path, Judges (read value path) path (Breaks format value)) :
    Judges (list read r path name) path (FieldBreaks r false name (.array format)) := by
  unfold list
  split
  · next hget => exact judges_missing hget []
  · next values hget =>
    refine (judges_itemsFrom _ h 0 values).under.congr fun rest rule => ?_
    simp only [fieldBreaks_of_some hget, breaks_array_iff, Nat.zero_add]
    rfl
  · next value hne hget =>
    have haccepts : Rule.array.accepts value = false := by
      cases value with
      | array items => exact absurd rfl (hne items)
      | _ => rfl
    exact .complain (.here hget List.mem_cons_self haccepts)

theorem judges_optional {read : Except Complaint β} {format : Format}
    (h : ∀ value, r.get? name = some value →
      Judges read path (FieldBreaks r true name format)) :
    Judges (optional r name read) path (FieldBreaks r false name format) := by
  unfold optional
  cases hget : r.get? name with
  | none => exact judges_missing hget none
  | some value =>
    refine ((h value hget).map some).congr fun rest rule => ?_
    rw [fieldBreaks_of_some hget, fieldBreaks_of_some hget]

/-- The reader of an object judges by what the readers of its fields judge by. -/
theorem judges_record {value : Json} {f : Record → Except Complaint β}
    {required optional : List (String × Format)}
    (h : ∀ fields, Judges (f { fields }) path fun rest rule =>
      (∃ field ∈ required, FieldBreaks { fields } true field.1 field.2 rest rule) ∨
        ∃ field ∈ optional, FieldBreaks { fields } false field.1 field.2 rest rule) :
    Judges (asRecord value path >>= f) path (Breaks (.object required optional) value) := by
  have hrefused : ∀ {value : Json}, Rule.object.accepts value = false →
      Judges (.error ⟨path, .object⟩ : Except Complaint β) path
        (Breaks (.object required optional) value) := fun haccepts =>
    ⟨nofun, fun _ herror => Except.error.inj herror ▸
      ⟨[], (List.append_nil path).symm, .here List.mem_cons_self haccepts⟩⟩
  cases value with
  | object fields => exact (h fields).congr fun _ _ => breaks_object_iff.symm
  | _ => exact hrefused rfl

end

/-! ## Parts of a score -/

theorem judges_note (value : Json) (path : Path) :
    Judges (readNote value path) path (Breaks noteFormat value) :=
  judges_record path fun _ =>
    ((judges_number _ path _ none).bind fun _ => (judges_number _ path _ none).bind fun _ =>
      (judges_positive _ path _ (by simp)).bind fun _ =>
      (judges_number _ path _ (some _)).bind fun _ => .pure _).congr fun _ _ => by
      simp [or_assoc]

theorem judges_chord (value : Json) (path : Path) :
    Judges (readChord value path) path (Breaks chordFormat value) :=
  judges_record path fun _ =>
    ((judges_string _ path _ none).bind fun _ => (judges_string _ path _ none).bind fun _ =>
      (judges_number _ path _ none).bind fun _ => (judges_number _ path _ none).bind fun _ =>
      (judges_positive _ path _ (by simp)).bind fun _ =>
      (judges_number _ path _ (some _)).bind fun _ => .pure _).congr fun _ _ => by
      simp [or_assoc]

theorem judges_track (value : Json) (path : Path) :
    Judges (readTrack value path) path (Breaks trackFormat value) :=
  judges_record path fun _ =>
    ((judges_string _ path _ none).bind fun _ => (judges_string _ path _ none).bind fun _ =>
      (judges_list _ path _ judges_note).bind fun _ =>
      (judges_list _ path _ judges_chord).bind fun _ =>
      (judges_number _ path _ (some _)).bind fun _ =>
      (judges_number _ path _ (some _)).bind fun _ => .pure _).congr fun _ _ => by
      simp [or_assoc]

theorem judges_hit (value : Json) (path : Path) :
    Judges (readHit value path) path (Breaks hitFormat value) :=
  judges_record path fun _ =>
    ((judges_string _ path _ none).bind fun _ => (judges_number _ path _ none).bind fun _ =>
      (judges_number _ path _ (some _)).bind fun _ => .pure _).congr fun _ _ => by
      simp [or_assoc]

theorem judges_drums (value : Json) (path : Path) :
    Judges (readDrums value path) path (Breaks drumsFormat value) :=
  judges_record path fun _ =>
    ((judges_string _ path _ (some _)).bind fun _ =>
      (judges_list _ path _ judges_hit).bind fun _ =>
      (judges_number _ path _ (some _)).bind fun _ => .pure _).congr fun _ _ => by
      simp

/-- A section with no fields standing in for missing ones. -/
theorem judges_section (value : Json) (path : Path) :
    Judges (readSection [] value path) path (Breaks sectionFormat value) := by
  have hdrums : ∀ (r : Record) value, r.get? "drums" = some value →
      Judges (readDrums ((r.get? "drums").getD .null) (path ++ [.field "drums"])) path
        (FieldBreaks r true "drums" drumsFormat) := fun r value hget => by
    rw [hget]
    exact (judges_drums value _).under.congr fun _ _ => (fieldBreaks_of_some hget).symm
  exact judges_record path fun _ =>
    ((judges_string _ path _ none).bind fun _ => (judges_positive _ path _ (by simp)).bind fun _ =>
      (judges_number _ path _ (some _)).bind fun _ =>
      (judges_optional _ path _ fun _ _ => judges_string _ path _ none).bind fun _ =>
      (judges_optional _ path _ fun _ _ => judges_positive _ path _ (by simp)).bind fun _ =>
      (judges_list _ path _ judges_track).bind fun _ =>
      (judges_optional _ path _ (hdrums _)).bind fun _ => .pure _).congr fun _ _ => by
      simp [or_assoc]

theorem sectionsFrom_nil (index : Nat) (values : List Json) :
    sectionsFrom [] index values = itemsFrom (readSection []) [.field "sections"] index values := by
  induction values generalizing index with
  | nil => rfl
  | cons value values ih =>
    rw [sectionsFrom, itemsFrom]
    simp only [List.headD_nil, List.tail_nil, ih]
    rfl

theorem readSections_nil (r : Record) :
    readSections r [] = list (readSection []) r [] "sections" := by
  unfold readSections list
  split <;> simp [sectionsFrom_nil, *]

/-- What the reader of a document that was let in judges by: all its fields but the version. -/
theorem judges_score (fields : Json.Fields) :
    Judges (readScore { fields }) [] fun rest rule =>
      ∃ field ∈ contentFields, FieldBreaks { fields } false field.1 field.2 rest rule := by
  have htempo : ∀ x ∈ some (Scalar.ofNat Default.tempo : Float), ¬x ≤ 0 := by
    rintro x ⟨⟩
    decide +kernel
  unfold readScore
  simp only [readSections_nil]
  exact ((judges_string _ [] _ (some _)).bind fun _ => (judges_positive _ [] _ htempo).bind fun _ =>
    (judges_string _ [] _ (some _)).bind fun _ => (judges_string _ [] _ (some _)).bind fun _ =>
    (judges_list _ [] _ judges_section).bind fun _ => .pure _).congr fun _ _ => by
    simp [contentFields]

end LeadSheet.Document
