import LeadSheet.Proofs.Json.RoundTrip

/-!
# Every field has one value

An object names no field twice: the reader puts a field that comes again over the one it has read
before. So what is read from a text names every field once, at any depth (`namesOnce_of_ofText?`).
-/

namespace LeadSheet.Json

/-- No object in the value names a field twice. -/
inductive NamesOnce : Json → Prop where
  | null : NamesOnce .null
  | bool (b : Bool) : NamesOnce (.bool b)
  | number (x : Float) : NamesOnce (.number x)
  | string (text : String) : NamesOnce (.string text)
  | array {items : List Json} : (∀ item ∈ items, NamesOnce item) → NamesOnce (.array items)
  | object {fields : Fields} : (fields.map (·.1)).Nodup → (∀ field ∈ fields, NamesOnce field.2) →
    NamesOnce (.object fields)

namespace NamesOnce

theorem items {items : List Json} (h : NamesOnce (.array items)) :
    ∀ item ∈ items, NamesOnce item := by
  cases h with
  | array hitems => exact hitems

theorem names {fields : Fields} (h : NamesOnce (.object fields)) : (fields.map (·.1)).Nodup := by
  cases h with
  | object hnames _ => exact hnames

theorem values {fields : Fields} (h : NamesOnce (.object fields)) :
    ∀ field ∈ fields, NamesOnce field.2 := by
  cases h with
  | object _ hvalues => exact hvalues

end NamesOnce

attribute [simp] NamesOnce.null NamesOnce.bool NamesOnce.number NamesOnce.string

@[simp]
theorem namesOnce_array_iff {items : List Json} :
    NamesOnce (.array items) ↔ ∀ item ∈ items, NamesOnce item :=
  ⟨NamesOnce.items, .array⟩

@[simp]
theorem namesOnce_object_iff {fields : Fields} : NamesOnce (.object fields) ↔
    (fields.map (·.1)).Nodup ∧ ∀ field ∈ fields, NamesOnce field.2 :=
  ⟨fun h => ⟨h.names, h.values⟩, fun h => .object h.1 h.2⟩

/-! ## Fields -/

theorem get?_cons (first : String) (value : Json) (fields : Fields) (name : String) :
    Fields.get? ((first, value) :: fields) name
      = if name = first then some value else fields.get? name := by
  unfold Fields.get?
  rw [List.lookup_cons]
  by_cases h : name = first
  · simp [h]
  · rw [beq_false_of_ne h, if_neg h]

theorem get?_of_not_mem {fields : Fields} {name : String} (h : name ∉ fields.map (·.1)) :
    fields.get? name = none := by
  induction fields with
  | nil => rfl
  | cons field fields ih =>
    rw [List.map_cons, List.mem_cons, not_or] at h
    rw [get?_cons, if_neg h.1, ih h.2]

theorem mem_of_get? {fields : Fields} {name : String} {value : Json}
    (h : fields.get? name = some value) : (name, value) ∈ fields := by
  induction fields with
  | nil => cases h
  | cons field fields ih =>
    rw [get?_cons] at h
    split at h
    · next hname =>
      cases h
      exact hname ▸ List.mem_cons_self
    · exact List.mem_cons_of_mem _ (ih h)

section

variable (fields : Fields) (name : String) (value : Json)

theorem get?_put (other : String) :
    (fields.put name value).get? other
      = if other = name then some value else fields.get? other := by
  induction fields with
  | nil => rw [Fields.put, get?_cons]
  | cons field fields ih =>
    obtain ⟨first, old⟩ := field
    rw [Fields.put]
    split
    · next hfirst =>
      rw [get?_cons, get?_cons, hfirst]
      split <;> rfl
    · next hfirst =>
      rw [get?_cons, get?_cons, ih]
      by_cases h : other = first
      · rw [if_pos h, if_pos h, if_neg (h ▸ hfirst)]
      · rw [if_neg h, if_neg h]

/-- A field that is there keeps its place. -/
theorem names_put_of_mem (h : name ∈ fields.map (·.1)) :
    (fields.put name value).map (·.1) = fields.map (·.1) := by
  induction fields with
  | nil => cases h
  | cons field fields ih =>
    obtain ⟨first, old⟩ := field
    rw [Fields.put]
    split
    · rfl
    · next hfirst =>
      have hmem := (List.mem_cons.mp h).resolve_left (Ne.symm hfirst)
      rw [List.map_cons, ih hmem, List.map_cons]

theorem mem_put {field : String × Json} (h : field ∈ fields.put name value) :
    field ∈ fields ∨ field.2 = value := by
  induction fields with
  | nil => exact .inr (by rw [List.mem_singleton.mp h])
  | cons first fields ih =>
    rw [Fields.put] at h
    split at h
    · rcases List.mem_cons.mp h with rfl | h
      · exact .inr rfl
      · exact .inl (List.mem_cons_of_mem _ h)
    · rcases List.mem_cons.mp h with rfl | h
      · exact .inl List.mem_cons_self
      · exact (ih h).imp_left (List.mem_cons_of_mem _)

end

theorem NamesOnce.put {fields : Fields} (h : NamesOnce (.object fields)) (name : String)
    {value : Json} (hvalue : NamesOnce value) : NamesOnce (.object (fields.put name value)) := by
  refine .object ?_ fun field hfield => ?_
  · by_cases hname : name ∈ fields.map (·.1)
    · rw [names_put_of_mem fields name value hname]
      exact h.names
    · have hnew : ∀ other ∈ fields.map (·.1), ∀ last ∈ [name], other ≠ last :=
        fun other hother last hlast heq => hname (List.mem_singleton.mp hlast ▸ heq ▸ hother)
      rw [put_of_not_mem hname, List.map_append]
      exact List.nodup_append.mpr ⟨h.names, by simp, hnew⟩
  · rcases mem_put fields name value hfield with hfield | hfield
    · exact h.values field hfield
    · exact hfield ▸ hvalue

/-! ## What the reader gives -/

/-- Whatever is read within a bound names every field once. -/
structure ReadsOnce (fuel : Nat) : Prop where
  value : ∀ {text v rest}, value? fuel text = some (v, rest) → NamesOnce v
  elements : ∀ {text items rest}, elements? fuel text = some (items, rest) →
    ∀ item ∈ items, NamesOnce item
  members : ∀ {before text fields rest}, members? fuel before text = some (fields, rest) →
    NamesOnce (.object before) → NamesOnce (.object fields)

theorem namesOnce_of_word? {text rest : List Char} {v : Json} (h : word? text = some (v, rest)) :
    NamesOnce v := by
  unfold word? at h
  split at h
  · cases h
    exact .null
  · split at h
    · cases h
      exact .bool true
    · split at h <;> cases h
      exact .bool false

section

variable {fuel : Nat} (ih : ReadsOnce fuel) {text rest : List Char}

include ih

theorem ReadsOnce.value_succ {v : Json} (h : value? (fuel + 1) text = some (v, rest)) :
    NamesOnce v := by
  rw [value?] at h
  split at h
  · split at h
    · cases h
      simp
    · obtain ⟨⟨fields, behind⟩, hmembers, heq⟩ := Option.map_eq_some_iff.mp h
      cases heq
      exact ih.members hmembers (by simp)
  · split at h
    · cases h
      simp
    · obtain ⟨⟨items, behind⟩, helements, heq⟩ := Option.map_eq_some_iff.mp h
      cases heq
      exact .array (ih.elements helements)
  · obtain ⟨⟨text, behind⟩, -, heq⟩ := Option.map_eq_some_iff.mp h
    cases heq
    exact .string _
  · split at h
    · obtain ⟨⟨x, behind⟩, -, heq⟩ := Option.map_eq_some_iff.mp h
      cases heq
      exact .number x
    · exact namesOnce_of_word? h
  · cases h

theorem ReadsOnce.elements_succ {items : List Json}
    (h : elements? (fuel + 1) text = some (items, rest)) : ∀ item ∈ items, NamesOnce item := by
  rw [elements?] at h
  split at h
  · cases h
  · next hvalue =>
    have hitem := ih.value hvalue
    split at h
    · obtain ⟨⟨others, behind⟩, helements, heq⟩ := Option.map_eq_some_iff.mp h
      cases heq
      exact List.forall_mem_cons.mpr ⟨hitem, ih.elements helements⟩
    · cases h
      exact List.forall_mem_singleton.mpr hitem
    · cases h

theorem ReadsOnce.members_succ {before fields : Fields}
    (h : members? (fuel + 1) before text = some (fields, rest))
    (hbefore : NamesOnce (.object before)) : NamesOnce (.object fields) := by
  rw [members?] at h
  split at h
  · split at h
    · cases h
    · split at h
      · split at h
        · cases h
        · next hvalue =>
          dsimp only at h
          split at h
          · exact ih.members h (hbefore.put _ (ih.value hvalue))
          · cases h
            exact hbefore.put _ (ih.value hvalue)
          · cases h
      · cases h
  · cases h

end

theorem readsOnce (fuel : Nat) : ReadsOnce fuel := by
  induction fuel with
  | zero => exact ⟨nofun, nofun, nofun⟩
  | succ fuel ih => exact ⟨ih.value_succ, ih.elements_succ, ih.members_succ⟩

/-- **What was read from a text names every field once.** -/
theorem namesOnce_of_ofText? {text : List Char} {v : Json} (h : ofText? text = some v) :
    NamesOnce v := by
  unfold ofText? at h
  split at h
  · next hread =>
    split at h
    · cases h
      exact (readsOnce _).value hread
    · cases h
  · cases h

end LeadSheet.Json
