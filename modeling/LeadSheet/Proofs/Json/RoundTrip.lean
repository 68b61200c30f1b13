import LeadSheet.Json.Printer
import LeadSheet.Proofs.Number.Notation

/-!
# JSON text that was written is read back

The text of a value is read back as the value, in either layout (`ofText?_text`). This holds for
values whose numbers are all finite and not negative zero, and whose objects name no field twice:
what is not finite is written `null`, and of two fields of one name the reader keeps one.

The reader takes what it needs from the front of a text and hands back the rest. So everything is
stated with an arbitrary rest behind the text, of which only the end of a number asks anything
(`Stops`). How deep the reading may go is bounded by a number that is at least the length of the
text.
-/

namespace LeadSheet.Json

/-! ## Strings -/

theorem hex4?_control : ∀ n : Fin 32,
    hex4? '0' '0' (hexDigit (n.val / 16)) (hexDigit (n.val % 16)) = some n.val := by
  decide

theorem ofUnit_control : ∀ n : Fin 32,
    ofUnit n.val = Char.ofNat n.val ∧ isHighSurrogate n.val = false := by
  decide

theorem joinPieces_unit {code : Nat} (h : isHighSurrogate code = false) (parts : List Piece) :
    joinPieces (.unit code :: parts) = ofUnit code :: joinPieces parts := by
  match parts with
  | [] | .plain _ :: _ => rfl
  | .unit low :: rest =>
    rw [joinPieces, h]
    rfl

/-- A character is read back as one part of the string that stands for it alone. -/
theorem exists_piece (c : Char) : ∃ part, (∀ rest, pieces? (escaped c ++ rest)
      = (pieces? rest).map fun (parts, rest) => (part :: parts, rest)) ∧
    ∀ parts, joinPieces (part :: parts) = c :: joinPieces parts := by
  unfold escaped
  split
  · next h => exact ⟨.plain '"', fun _ => rfl, fun _ => h ▸ rfl⟩
  split
  · next h => exact ⟨.plain '\\', fun _ => rfl, fun _ => h ▸ rfl⟩
  split
  · next h => exact ⟨.plain '\x08', fun _ => rfl, fun _ => h ▸ rfl⟩
  split
  · next h => exact ⟨.plain '\x0C', fun _ => rfl, fun _ => h ▸ rfl⟩
  split
  · next h => exact ⟨.plain '\n', fun _ => rfl, fun _ => h ▸ rfl⟩
  split
  · next h => exact ⟨.plain '\r', fun _ => rfl, fun _ => h ▸ rfl⟩
  split
  · next h => exact ⟨.plain '\t', fun _ => rfl, fun _ => h ▸ rfl⟩
  split
  · next h =>
    have hlt : c.toNat < 32 := h
    have hhex := hex4?_control ⟨c.toNat, hlt⟩
    obtain ⟨hunit, hhigh⟩ := ofUnit_control ⟨c.toNat, hlt⟩
    refine ⟨.unit c.toNat, fun rest => ?_, fun parts => ?_⟩
    · simp only [List.cons_append, List.nil_append, pieces?]
      dsimp only at hhex
      rw [hhex]
    · rw [joinPieces_unit hhigh, hunit, Char.ofNat_toNat]
  · next hquote hbackslash _ _ _ _ _ hcontrol =>
    refine ⟨.plain c, fun rest => ?_, fun _ => rfl⟩
    rw [List.singleton_append, pieces?]
    · rw [if_neg (not_or.mpr ⟨hcontrol, hbackslash⟩)]
    · exact hquote
    · rintro _ _ _ _ _ rfl _
      exact hbackslash rfl
    · rintro _ _ rfl _
      exact hbackslash rfl

/-- **The inside of a string is read back up to its closing quote.** -/
theorem stringBody?_escaped (text rest : List Char) :
    stringBody? (text.flatMap escaped ++ '"' :: rest) = some (text, rest) := by
  have hparts : ∃ parts, pieces? (text.flatMap escaped ++ '"' :: rest) = some (parts, rest) ∧
      joinPieces parts = text := by
    induction text with
    | nil => exact ⟨[], rfl, rfl⟩
    | cons c text ih =>
      obtain ⟨part, hpart, hjoin⟩ := exists_piece c
      obtain ⟨parts, hparts, htext⟩ := ih
      refine ⟨part :: parts, ?_, ?_⟩
      · rw [List.flatMap_cons, List.append_assoc, hpart, hparts]
        rfl
      · rw [hjoin, htext]
  obtain ⟨parts, hparts, htext⟩ := hparts
  unfold stringBody?
  rw [hparts, ← htext]
  rfl

theorem toList_quoted (text : String) (rest : List Char) :
    (quoted text).toList ++ rest = '"' :: (text.toList.flatMap escaped ++ '"' :: rest) := by
  unfold quoted
  rw [String.toList_append, String.toList_append, List.append_assoc, List.append_assoc]
  simp only [String.toList_ofList]
  rfl

/-! ## Blanks -/

theorem skipSpace_append {blanks : List Char} (h : ∀ c ∈ blanks, isSpace c = true)
    (rest : List Char) : skipSpace (blanks ++ rest) = skipSpace rest :=
  List.dropWhile_append_of_pos h

theorem skipSpace_cons {c : Char} (h : isSpace c = false) (rest : List Char) :
    skipSpace (c :: rest) = c :: rest :=
  List.dropWhile_cons_of_neg (Bool.eq_false_iff.mp h)

theorem isSpace_lineBreak (layout : Layout) (level : Nat) :
    ∀ c ∈ (layout.lineBreak level).toList, isSpace c = true := by
  cases layout with
  | oneLine => exact fun c hc => absurd hc List.not_mem_nil
  | lines indent =>
    intro c hc
    unfold Layout.lineBreak at hc
    rw [String.toList_append] at hc
    rcases List.mem_append.mp hc with hc | hc
    · rw [List.mem_singleton.mp hc]
      rfl
    · rw [String.toList_ofList] at hc
      rw [List.eq_of_mem_replicate hc]
      rfl

/-- A line break before a text that does not start with a blank is all that is skipped. -/
theorem skipSpace_lineBreak (layout : Layout) (level : Nat) {text behind : List Char} {c : Char}
    (htext : text = c :: behind) (hc : isSpace c = false) (rest : List Char) :
    skipSpace ((layout.lineBreak level).toList ++ (text ++ rest)) = text ++ rest := by
  rw [skipSpace_append (isSpace_lineBreak layout level), htext]
  exact skipSpace_cons hc _

/-- A value may stand behind blanks. -/
theorem value?_skip {blanks : List Char} (h : ∀ c ∈ blanks, isSpace c = true) (fuel : Nat)
    (rest : List Char) : value? fuel (blanks ++ rest) = value? fuel rest := by
  cases fuel with
  | zero => rfl
  | succ fuel => rw [value?, value?, skipSpace_append h]

theorem elements?_skip {blanks : List Char} (h : ∀ c ∈ blanks, isSpace c = true) (fuel : Nat)
    (rest : List Char) : elements? fuel (blanks ++ rest) = elements? fuel rest := by
  cases fuel with
  | zero => rfl
  | succ fuel => rw [elements?, elements?, value?_skip h]

theorem members?_skip {blanks : List Char} (h : ∀ c ∈ blanks, isSpace c = true) (fuel : Nat)
    (before : Fields) (rest : List Char) :
    members? fuel before (blanks ++ rest) = members? fuel before rest := by
  cases fuel with
  | zero => rfl
  | succ fuel => rw [members?, members?, skipSpace_append h]

/-- Behind a value stands nothing, a blank, a comma or a closing bracket or brace, which end a
number. -/
theorem stops_of_head {rest : List Char}
    (h : ∀ c ∈ rest.head?, isSpace c = true ∨ c = ',' ∨ c = ']' ∨ c = '}') : Stops rest := by
  have hend : ∀ c ∈ rest.head?,
      c = ' ' ∨ c = '\t' ∨ c = '\n' ∨ c = '\r' ∨ c = ',' ∨ c = ']' ∨ c = '}' := by
    intro c hc
    have := h c hc
    unfold isSpace at this
    simp only [Bool.or_eq_true, beq_iff_eq] at this
    tauto
  refine ⟨fun c hc => ?_, fun c hc => ?_, fun c hc => ?_⟩
  all_goals
    rcases hend c hc with rfl | rfl | rfl | rfl | rfl | rfl | rfl <;> decide

theorem stops_append {blanks : List Char} (h : ∀ c ∈ blanks, isSpace c = true) {c : Char}
    (hc : c = ',' ∨ c = ']' ∨ c = '}') (rest : List Char) : Stops (blanks ++ c :: rest) := by
  refine stops_of_head fun first hfirst => ?_
  cases blanks with
  | nil =>
    cases hfirst
    exact .inr hc
  | cons blank blanks =>
    cases hfirst
    exact .inl (h _ List.mem_cons_self)

theorem stops_comma (rest : List Char) : Stops (',' :: rest) :=
  stops_append (fun _ h => absurd h List.not_mem_nil) (.inl rfl) rest

/-! ## Values that can be read back -/

mutual

/-- All numbers in the value can be written, and no object names a field twice. -/
def Readable : Json → Prop
  | null | bool _ | string _ => True
  | number x => Writable x
  | array items => ItemsReadable items
  | object fields => (fields.map (·.1)).Nodup ∧ FieldsReadable fields

/-- All items can be read back. -/
def ItemsReadable : List Json → Prop
  | [] => True
  | item :: items => Readable item ∧ ItemsReadable items

/-- The values of all fields can be read back. -/
def FieldsReadable : List (String × Json) → Prop
  | [] => True
  | (_, value) :: fields => Readable value ∧ FieldsReadable fields

end

theorem itemsReadable_iff {items : List Json} :
    ItemsReadable items ↔ ∀ item ∈ items, Readable item := by
  induction items with
  | nil => simp [ItemsReadable]
  | cons item items ih => simp [ItemsReadable, ih]

theorem fieldsReadable_iff {fields : List (String × Json)} :
    FieldsReadable fields ↔ ∀ field ∈ fields, Readable field.2 := by
  induction fields with
  | nil => simp [FieldsReadable]
  | cons field fields ih =>
    obtain ⟨name, value⟩ := field
    simp [FieldsReadable, ih]

/-! ## Texts of values -/

theorem numberText_eq {x : Float} (hx : Writable x) : numberText x = Notation.ofFloat x := by
  unfold numberText
  refine if_pos ?_
  change Float.Model.UnpackedFloat.isFinite _ = true
  unfold Writable at hx
  unfold Float.Model.unpack
  split at hx
  · next h => rw [h]; rfl
  · next h => rw [h]; rfl
  · exact hx.elim

/-- A text that is read as a number starts as one. -/
theorem head_of_number? {text : List Char} {r : Float × List Char} (h : number? text = some r) :
    ∃ c rest, text = c :: rest ∧ (c = '-' ∨ c.isDigit = true) := by
  cases text with
  | nil => cases h
  | cons c rest =>
    refine ⟨c, rest, rfl, or_iff_not_imp_left.mpr fun hne => ?_⟩
    by_contra hdigit
    have hminus : ∀ c' ∈ (c :: rest).head?, c' ≠ '-' := fun c' hc' => by
      cases hc'
      exact hne
    have hnumber := number?_eq_behindSign? false hminus
    rw [if_neg Bool.false_ne_true, List.nil_append, h] at hnumber
    unfold behindSign? at hnumber
    dsimp only at hnumber
    rw [List.takeWhile_cons_of_neg hdigit, if_pos (.inl rfl)] at hnumber
    cases hnumber

/-- The items of an array, with what separates them. -/
def listText (layout : Layout) (level : Nat) : List Json → List Char
  | [] => []
  | item :: items => (textAt layout level item).toList ++ (itemsText layout level items).toList

/-- The fields of an object, with what separates them. -/
def fieldListText (layout : Layout) (level : Nat) : List (String × Json) → List Char
  | [] => []
  | (name, value) :: fields => (quoted name).toList ++ layout.colon.toList
      ++ (textAt layout level value).toList ++ (fieldsText layout level fields).toList

section

variable (layout : Layout) (level : Nat)

theorem toList_itemsText (item : Json) (items : List Json) :
    (itemsText layout level (item :: items)).toList
      = ',' :: ((layout.lineBreak level).toList ++ listText layout level (item :: items)) := by
  simp only [itemsText, listText, String.toList_append, List.append_assoc]
  rfl

theorem toList_fieldsText (field : String × Json) (fields : List (String × Json)) :
    (fieldsText layout level (field :: fields)).toList
      = ',' :: ((layout.lineBreak level).toList
        ++ fieldListText layout level (field :: fields)) := by
  simp only [fieldsText, fieldListText, String.toList_append, List.append_assoc]
  rfl

theorem toList_array (item : Json) (items : List Json) :
    (textAt layout level (array (item :: items))).toList
      = '[' :: ((layout.lineBreak (level + 1)).toList
        ++ (listText layout (level + 1) (item :: items)
          ++ ((layout.lineBreak level).toList ++ [']']))) := by
  simp only [textAt, listText, String.toList_append, List.append_assoc]
  rfl

theorem toList_object (field : String × Json) (fields : List (String × Json)) :
    (textAt layout level (object (field :: fields))).toList
      = '{' :: ((layout.lineBreak (level + 1)).toList
        ++ (fieldListText layout (level + 1) (field :: fields)
          ++ ((layout.lineBreak level).toList ++ ['}']))) := by
  obtain ⟨name, value⟩ := field
  simp only [textAt, fieldListText, String.toList_append, List.append_assoc]
  rfl

theorem not_space_of_number {c : Char} (hc : c = '-' ∨ c.isDigit = true) :
    isSpace c = false ∧ c ≠ ']' := by
  rcases hc with rfl | hc
  · decide
  · refine ⟨Bool.eq_false_iff.mpr fun hspace => ?_, ?_⟩
    · unfold isSpace at hspace
      simp only [Bool.or_eq_true, beq_iff_eq] at hspace
      rcases hspace with ((rfl | rfl) | rfl) | rfl <;> exact absurd hc (by decide)
    · rintro rfl
      exact absurd hc (by decide)

theorem head_textAt {v : Json} (hv : Readable v) :
    ∃ c rest, (textAt layout level v).toList = c :: rest ∧ isSpace c = false ∧ c ≠ ']' := by
  match v, hv with
  | null, _ => exact ⟨'n', "ull".toList, by rw [textAt]; rfl, rfl, by decide⟩
  | bool true, _ => exact ⟨'t', "rue".toList, by rw [textAt]; rfl, rfl, by decide⟩
  | bool false, _ => exact ⟨'f', "alse".toList, by rw [textAt]; rfl, rfl, by decide⟩
  | number x, hx =>
    have hend : Stops [] := stops_of_head fun c hc => nomatch hc
    have hnumber := number?_ofFloat hx hend
    rw [List.append_nil] at hnumber
    obtain ⟨c, rest, htext, hc⟩ := head_of_number? hnumber
    refine ⟨c, rest, ?_, not_space_of_number hc⟩
    rw [textAt, numberText_eq hx, htext]
  | string s, _ =>
    refine ⟨'"', s.toList.flatMap escaped ++ ['"'], ?_, rfl, by decide⟩
    rw [textAt, ← List.append_nil (quoted s).toList]
    exact toList_quoted s []
  | array [], _ => exact ⟨'[', [']'], by rw [textAt]; rfl, rfl, by decide⟩
  | array (item :: items), _ => exact ⟨'[', _, toList_array layout level item items, rfl, by decide⟩
  | object [], _ => exact ⟨'{', ['}'], by rw [textAt]; rfl, rfl, by decide⟩
  | object (field :: fields), _ =>
    exact ⟨'{', _, toList_object layout level field fields, rfl, by decide⟩

theorem head_fieldListText (field : String × Json) (fields : List (String × Json)) :
    ∃ behind, fieldListText layout level (field :: fields) = '"' :: behind := by
  rw [fieldListText, List.append_assoc, List.append_assoc, toList_quoted]
  exact ⟨_, rfl⟩

/-- A text is not empty, so what bounds its length can be counted down. -/
theorem exists_fuel {v : Json} (hv : Readable v) {fuel : Nat}
    (hfuel : (textAt layout level v).toList.length ≤ fuel) : ∃ n, fuel = n + 1 := by
  obtain ⟨c, rest, htext, -⟩ := head_textAt layout level hv
  rw [htext] at hfuel
  exact Nat.exists_eq_succ_of_ne_zero (Nat.ne_zero_of_lt hfuel)

end

theorem put_of_not_mem {name : String} {value : Json} :
    ∀ {before : Fields}, name ∉ before.map (·.1) → before.put name value = before ++ [(name, value)]
  | [], _ => rfl
  | (other, old) :: rest, h => by
    rw [List.map_cons, List.mem_cons, not_or] at h
    rw [Fields.put, if_neg (Ne.symm h.1), put_of_not_mem h.2]
    rfl

/-! ## Steps of the reader -/

section

variable {layout : Layout} {fuel : Nat} {rest : List Char}

theorem value?_null : value? (fuel + 1) ("null".toList ++ rest) = some (null, rest) := rfl

theorem value?_bool (b : Bool) :
    value? (fuel + 1) ((if b then "true" else "false").toList ++ rest) = some (bool b, rest) := by
  cases b <;> rfl

theorem value?_number {text : List Char} {x : Float} (h : number? text = some (x, rest)) :
    value? (fuel + 1) text = some (number x, rest) := by
  obtain ⟨c, behind, rfl, hc⟩ := head_of_number? h
  rw [value?, skipSpace_cons (not_space_of_number hc).1]
  split
  · next heq => cases heq; exact absurd hc (by decide)
  · next heq => cases heq; exact absurd hc (by decide)
  · next heq => cases heq; exact absurd hc (by decide)
  · next heq =>
    cases heq
    rw [if_pos hc, h]
    rfl
  · next heq => cases heq

theorem value?_string (s : String) :
    value? (fuel + 1) ((quoted s).toList ++ rest) = some (string s, rest) := by
  rw [toList_quoted, value?, skipSpace_cons rfl]
  simp only
  rw [stringBody?_escaped]
  exact congrArg (fun t => some (string t, rest)) String.ofList_toList

theorem value?_array {text : List Char} {items : List Json}
    (hhead : ∀ c ∈ (skipSpace text).head?, c ≠ ']')
    (h : elements? fuel (skipSpace text) = some (items, rest)) :
    value? (fuel + 1) ('[' :: text) = some (array items, rest) := by
  rw [value?, skipSpace_cons rfl]
  simp only
  split
  · next heq => rw [heq] at hhead; exact absurd rfl (hhead ']' rfl)
  · rw [h]
    rfl

theorem value?_object {text : List Char} {fields : Fields}
    (hhead : ∀ c ∈ (skipSpace text).head?, c ≠ '}')
    (h : members? fuel [] (skipSpace text) = some (fields, rest)) :
    value? (fuel + 1) ('{' :: text) = some (object fields, rest) := by
  rw [value?, skipSpace_cons rfl]
  simp only
  split
  · next heq => rw [heq] at hhead; exact absurd rfl (hhead '}' rfl)
  · rw [h]
    rfl

/-- Behind an item comes its array's bracket. -/
theorem elements?_last {text closing : List Char} {item : Json}
    (hclosing : ∀ c ∈ closing, isSpace c = true)
    (h : value? fuel text = some (item, closing ++ ']' :: rest)) :
    elements? (fuel + 1) text = some ([item], rest) := by
  rw [elements?, h]
  dsimp only
  rw [skipSpace_append hclosing, skipSpace_cons rfl]
  rfl

/-- Behind an item comes a comma and the next item. -/
theorem elements?_next {text behind : List Char} {item : Json} {items : List Json}
    (h : value? fuel text = some (item, ',' :: behind))
    (hitems : elements? fuel behind = some (items, rest)) :
    elements? (fuel + 1) text = some (item :: items, rest) := by
  rw [elements?, h]
  dsimp only
  rw [skipSpace_cons rfl]
  simp only
  rw [hitems]
  rfl

theorem exists_colon (layout : Layout) :
    ∃ blanks, layout.colon.toList = ':' :: blanks ∧ ∀ c ∈ blanks, isSpace c = true := by
  cases layout with
  | oneLine => exact ⟨[], rfl, fun c hc => absurd hc List.not_mem_nil⟩
  | lines indent =>
    refine ⟨[' '], String.toList_ofList, fun c hc => ?_⟩
    rw [List.mem_singleton.mp hc]
    rfl

/-- What is read behind a field, those up to it being known. -/
def behindField? (fuel : Nat) (fields : Fields) (text : List Char) :
    Option (Fields × List Char) :=
  match skipSpace text with
  | ',' :: rest => members? fuel fields rest
  | '}' :: rest => some (fields, rest)
  | _ => none

/-- A field is put behind those read before. -/
theorem members?_field {before : Fields} {name : String} {value : Json} {text behind : List Char}
    (hname : name ∉ before.map (·.1)) (h : value? fuel text = some (value, behind)) :
    members? (fuel + 1) before ((quoted name).toList ++ (layout.colon.toList ++ text))
      = behindField? fuel (before ++ [(name, value)]) behind := by
  obtain ⟨blanks, hcolon, hblanks⟩ := exists_colon layout
  rw [toList_quoted, members?, skipSpace_cons rfl, hcolon]
  simp only
  rw [stringBody?_escaped]
  dsimp only
  rw [List.cons_append, skipSpace_cons rfl]
  simp only
  rw [value?_skip hblanks, h]
  dsimp only
  rw [String.ofList_toList, put_of_not_mem hname]
  rfl

/-- Behind a field comes its object's brace. -/
theorem members?_last {before : Fields} {name : String} {value : Json} {text closing : List Char}
    (hname : name ∉ before.map (·.1)) (hclosing : ∀ c ∈ closing, isSpace c = true)
    (h : value? fuel text = some (value, closing ++ '}' :: rest)) :
    members? (fuel + 1) before ((quoted name).toList ++ (layout.colon.toList ++ text))
      = some (before ++ [(name, value)], rest) := by
  rw [members?_field hname h, behindField?, skipSpace_append hclosing, skipSpace_cons rfl]
  rfl

/-- Behind a field comes a comma and the next field. -/
theorem members?_next {before : Fields} {name : String} {value : Json} {text behind : List Char}
    (hname : name ∉ before.map (·.1)) (h : value? fuel text = some (value, ',' :: behind)) :
    members? (fuel + 1) before ((quoted name).toList ++ (layout.colon.toList ++ text))
      = members? fuel (before ++ [(name, value)]) behind := by
  rw [members?_field hname h, behindField?, skipSpace_cons rfl]
  rfl

end

/-! ## Reading back -/

section

variable (layout : Layout)

-- Recursion on the value, as it was written. A text is longer than the texts of its parts by the
-- brackets and commas around them, so that the fuel never runs out.

mutual

/-- **The text of a value is read back as the value**, whatever stands behind it. -/
theorem value?_textAt (level : Nat) : ∀ (v : Json), Readable v → ∀ (fuel : Nat) (rest : List Char),
    (textAt layout level v).toList.length ≤ fuel → Stops rest →
    value? fuel ((textAt layout level v).toList ++ rest) = some (v, rest)
  | null, hv => by
    intro fuel rest hfuel _
    obtain ⟨fuel, rfl⟩ := exists_fuel layout level hv hfuel
    rw [textAt]
    exact value?_null
  | bool b, hv => by
    intro fuel rest hfuel _
    obtain ⟨fuel, rfl⟩ := exists_fuel layout level hv hfuel
    rw [textAt]
    exact value?_bool b
  | number x, hx => by
    intro fuel rest hfuel hrest
    obtain ⟨fuel, rfl⟩ := exists_fuel layout level hx hfuel
    rw [textAt, numberText_eq hx]
    exact value?_number (number?_ofFloat hx hrest)
  | string s, hv => by
    intro fuel rest hfuel _
    obtain ⟨fuel, rfl⟩ := exists_fuel layout level hv hfuel
    rw [textAt]
    exact value?_string s
  | array items, hitems => by
    have hlist := elements?_listText (level + 1) items hitems
    intro fuel rest hfuel _
    obtain ⟨fuel, rfl⟩ := exists_fuel layout level hitems hfuel
    cases items with
    | nil =>
      rw [textAt]
      rfl
    | cons item items =>
      obtain ⟨c, behind, htext, hspace, hc⟩ := head_textAt layout (level + 1) hitems.1
      rw [toList_array] at hfuel ⊢
      have hhead : listText layout (level + 1) (item :: items)
          = c :: (behind ++ (itemsText layout (level + 1) items).toList) := by
        rw [listText, htext]
        rfl
      have hskip := skipSpace_lineBreak layout (level + 1) hhead hspace
        ((layout.lineBreak level).toList ++ ']' :: rest)
      simp only [List.cons_append, List.append_assoc, List.nil_append] at hfuel ⊢
      refine value?_array (fun first hfirst => ?_) ?_
      · rw [hskip, hhead] at hfirst
        cases hfirst
        exact hc
      · rw [hskip]
        refine hlist (List.cons_ne_nil _ _) fuel _ rest (isSpace_lineBreak layout level) ?_
        simp only [List.length_cons, List.length_append, List.length_nil] at hfuel
        omega
  | object fields, hfields => by
    have hlist := members?_fieldListText (level + 1) fields hfields.2
    intro fuel rest hfuel _
    obtain ⟨fuel, rfl⟩ := exists_fuel layout level hfields hfuel
    cases fields with
    | nil =>
      rw [textAt]
      rfl
    | cons field fields =>
      obtain ⟨behind, htext⟩ := head_fieldListText layout (level + 1) field fields
      rw [toList_object] at hfuel ⊢
      have hskip := skipSpace_lineBreak layout (level + 1) htext rfl
        ((layout.lineBreak level).toList ++ '}' :: rest)
      simp only [List.cons_append, List.append_assoc, List.nil_append] at hfuel ⊢
      refine value?_object (fun first hfirst => ?_) ?_
      · rw [hskip, htext] at hfirst
        cases hfirst
        decide
      · rw [hskip]
        refine hlist (List.cons_ne_nil _ _) fuel [] _ rest hfields.1
          (isSpace_lineBreak layout level) ?_
        simp only [List.length_cons, List.length_append, List.length_nil] at hfuel
        omega

/-- The items of an array, up to its bracket. -/
theorem elements?_listText (level : Nat) : ∀ (items : List Json), ItemsReadable items → items ≠ [] →
    ∀ (fuel : Nat) (closing rest : List Char), (∀ c ∈ closing, isSpace c = true) →
    (listText layout level items).length + 1 ≤ fuel →
    elements? fuel (listText layout level items ++ (closing ++ ']' :: rest)) = some (items, rest)
  | [], _ => fun h => absurd rfl h
  | item :: items, hitems => by
    intro _ fuel closing rest hclosing hfuel
    have hitem := value?_textAt level item hitems.1
    have hnext := elements?_listText level items hitems.2
    obtain ⟨fuel, rfl⟩ := Nat.exists_eq_succ_of_ne_zero (Nat.ne_zero_of_lt hfuel)
    rw [listText, List.length_append] at hfuel
    rw [listText, List.append_assoc]
    cases items with
    | nil =>
      refine elements?_last hclosing (hitem fuel _ (by omega) (stops_append hclosing (by simp) _))
    | cons next items =>
      rw [toList_itemsText] at hfuel ⊢
      rw [List.cons_append, List.append_assoc]
      refine elements?_next (hitem fuel _ (by omega) (stops_comma _)) ?_
      rw [elements?_skip (isSpace_lineBreak layout level)]
      refine hnext (List.cons_ne_nil _ _) fuel closing rest hclosing ?_
      rw [List.length_cons, List.length_append] at hfuel
      omega

/-- The fields of an object, up to its brace. They come behind those read before. -/
theorem members?_fieldListText (level : Nat) : ∀ (fields : List (String × Json)),
    FieldsReadable fields → fields ≠ [] → ∀ (fuel : Nat) (before : Fields)
      (closing rest : List Char),
    (before.map (·.1) ++ fields.map (·.1)).Nodup → (∀ c ∈ closing, isSpace c = true) →
    (fieldListText layout level fields).length + 1 ≤ fuel →
    members? fuel before (fieldListText layout level fields ++ (closing ++ '}' :: rest))
      = some (before ++ fields, rest)
  | [], _ => fun h => absurd rfl h
  | (name, value) :: fields, hfields => by
    intro _ fuel before closing rest hnodup hclosing hfuel
    have hvalue := value?_textAt level value hfields.1
    have hnext := members?_fieldListText level fields hfields.2
    obtain ⟨fuel, rfl⟩ := Nat.exists_eq_succ_of_ne_zero (Nat.ne_zero_of_lt hfuel)
    have hname : name ∉ before.map (·.1) := fun hmem =>
      (List.nodup_append.mp hnodup).2.2 name hmem name List.mem_cons_self rfl
    simp only [fieldListText, List.length_append] at hfuel
    rw [fieldListText, List.append_assoc, List.append_assoc, List.append_assoc]
    cases fields with
    | nil =>
      exact members?_last hname hclosing
        (hvalue fuel _ (by omega) (stops_append hclosing (by simp) _))
    | cons next fields =>
      rw [toList_fieldsText] at hfuel ⊢
      rw [List.cons_append, List.append_assoc,
        members?_next hname (hvalue fuel _ (by omega) (stops_comma _)),
        members?_skip (isSpace_lineBreak layout level),
        hnext (List.cons_ne_nil _ _) fuel _ closing rest ?_ hclosing ?_, List.append_assoc]
      · rfl
      · rw [List.map_append, List.append_assoc]
        exact hnodup
      · rw [List.length_cons, List.length_append] at hfuel
        omega

end

/-- **What was written is read back**, in either layout. -/
theorem ofText?_text {v : Json} (hv : Readable v) : ofText? (v.text layout).toList = some v := by
  have hend : Stops [] := stops_of_head fun c hc => nomatch hc
  have hvalue : value? (2 * (v.text layout).toList.length + 2) (v.text layout).toList
      = some (v, []) := by
    have h := value?_textAt layout 0 v hv (2 * (v.text layout).toList.length + 2) []
      (by unfold text; omega) hend
    rwa [List.append_nil] at h
  unfold ofText?
  rw [hvalue]
  rfl

end

end LeadSheet.Json
