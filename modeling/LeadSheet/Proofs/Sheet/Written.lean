import LeadSheet.Proofs.Sheet.Slots
import LeadSheet.Proofs.Text.Case

/-!
# Written entries are read

A slot of a melodic pattern is written entry by entry: a token, a note letter with an accidental
perhaps and any word characters behind it, and its argument in parentheses. Blanks may stand between
entries, before the parenthesis and at the ends of the slot. Reading gives these entries back
(`Written.entries_eq`): it looks for a word anywhere, but none starts at a blank, and behind an
entry it goes on at the end of that.

So a pattern of written slots gives one note or chord for each of their entries (`read_written`): a
note if what is behind the letter and the accidental is one digit, and otherwise a chord.
-/

namespace LeadSheet

variable {α : Type} [Scalar α]

/-! ## Tokens -/

/-- A root as it is written: a note letter, and a sharp or a flat perhaps. -/
def IsRoot (root : List Char) : Prop :=
  ∃ letter accidental, isNoteLetter letter = true ∧
    (accidental = [] ∨ accidental = ['#'] ∨ accidental = ['b']) ∧ root = letter :: accidental

/-- The word of a note or a chord: a root and any word characters. -/
def IsToken (word : List Char) : Prop :=
  ∃ root rest, IsRoot root ∧ (∀ c ∈ rest, Text.isWordChar c = true) ∧ word = root ++ rest

theorem isToken_append (letter : Char) (accidental rest : List Char)
    (hletter : isNoteLetter letter = true)
    (haccidental : accidental = [] ∨ accidental = ['#'] ∨ accidental = ['b'])
    (hrest : ∀ c ∈ rest, Text.isWordChar c = true) : IsToken (letter :: accidental ++ rest) :=
  ⟨_, rest, ⟨letter, accidental, hletter, haccidental, rfl⟩, hrest, rfl⟩

/-- The word of a note: a root and one digit. -/
def IsNoteToken (word : List Char) : Prop :=
  ∃ root digit, IsRoot root ∧ digit.isDigit = true ∧ word = root ++ [digit]

theorem isWordChar_of_isNoteLetter {c : Char} (h : isNoteLetter c = true) :
    Text.isWordChar c = true := by
  have halpha : c.isAlpha = true := by
    refine Bool.or_eq_true_iff.mpr ?_
    simp only [isNoteLetter, Bool.or_eq_true, Bool.and_eq_true, decide_eq_true_eq] at h
    rcases h with ⟨hleast, hmost⟩ | ⟨hleast, hmost⟩
    · exact .inl (decide_eq_true ⟨hleast, Char.le_trans hmost (by decide)⟩)
    · have hmost : c ≤ 'z' := Char.le_trans hmost (by decide)
      exact .inr (Bool.and_eq_true_iff.mpr ⟨decide_eq_true hleast, decide_eq_true hmost⟩)
  exact Bool.or_eq_true_iff.mpr (.inl (Bool.or_eq_true_iff.mpr (.inl halpha)))

/-- The accidental that starts what is behind a letter, if there is one. -/
def accidentalOf (behind : List Char) : List Char := (behind.take 1).filter isAccidental

theorem accidentalOf_cons_of_pos {c : Char} (hc : isAccidental c = true) (behind : List Char) :
    accidentalOf (c :: behind) = [c] := by
  simp [accidentalOf, hc]

theorem accidentalOf_of_not {behind : List Char} (h : ∀ c ∈ behind.head?, isAccidental c = false) :
    accidentalOf behind = [] := by
  cases behind with
  | nil => rfl
  | cons c behind => simp [accidentalOf, h c rfl]

theorem accidentalOf_cases (behind : List Char) :
    accidentalOf behind = [] ∨ accidentalOf behind = ['#'] ∨ accidentalOf behind = ['b'] := by
  cases behind with
  | nil => exact .inl rfl
  | cons c behind =>
    by_cases hc : isAccidental c = true
    · rw [accidentalOf_cons_of_pos hc]
      simpa [isAccidental] using hc
    · exact .inl (accidentalOf_of_not (by simpa using hc))

theorem accidentalOf_append_drop (behind : List Char) :
    accidentalOf behind ++ behind.drop (accidentalOf behind).length = behind := by
  cases behind with
  | nil => rfl
  | cons c behind =>
    by_cases hc : isAccidental c = true
    · rw [accidentalOf_cons_of_pos hc]
      rfl
    · rw [accidentalOf_of_not (by simpa using hc)]
      rfl

theorem rootOf?_cons {letter : Char} (hletter : isNoteLetter letter = true) (behind : List Char) :
    rootOf? (letter :: behind)
      = some (letter.toUpper :: accidentalOf behind,
          behind.drop (accidentalOf behind).length) := by
  cases behind with
  | nil => simp [rootOf?, hletter, accidentalOf]
  | cons c behind =>
    by_cases hc : isAccidental c = true
    · simp [rootOf?, hletter, hc, accidentalOf_cons_of_pos]
    · simp [rootOf?, hletter, hc, accidentalOf]

/-- What is split off a word is a root, but for the case of its letter. -/
theorem exists_isRoot_of_rootOf? {word root rest : List Char}
    (h : rootOf? word = some (root, rest)) :
    ∃ written, IsRoot written ∧ word = written ++ rest := by
  match word with
  | [] => cases h
  | letter :: behind =>
    have hletter : isNoteLetter letter = true := by
      by_contra hnot
      cases behind <;> simp [rootOf?, hnot] at h
    rw [rootOf?_cons hletter] at h
    cases h
    refine ⟨letter :: accidentalOf behind, ⟨letter, _, hletter, accidentalOf_cases behind, rfl⟩, ?_⟩
    rw [List.cons_append, accidentalOf_append_drop]

/-- Characters of a kind that sharps and flats are not of. -/
theorem isAccidental_of_kind {kind : Char → Bool} (hsharp : kind '#' = false)
    (hflat : kind 'b' = false) {c : Char} (hc : kind c = true) : isAccidental c = false := by
  rw [isAccidental, Bool.or_eq_false_iff, beq_eq_false_iff_ne, beq_eq_false_iff_ne]
  constructor
  · rintro rfl
    exact absurd hc (Bool.eq_false_iff.mp hsharp)
  · rintro rfl
    exact absurd hc (Bool.eq_false_iff.mp hflat)

/-- Notes are what is written as one. -/
theorem NoteToken.exists_ofText?_iff (v : Vocabulary α) {word : List Char} :
    (∃ token, ofText? v word = some token) ↔ IsNoteToken word := by
  constructor
  · rintro ⟨token, h⟩
    unfold ofText? at h
    split at h
    · next root digit hroot =>
      split at h
      · next hdigit =>
        obtain ⟨written, hwritten, rfl⟩ := exists_isRoot_of_rootOf? hroot
        exact ⟨written, digit, hwritten, hdigit, rfl⟩
      · cases h
    · cases h
  · rintro ⟨_, digit, ⟨letter, accidental, hletter, haccidental, rfl⟩, hdigit, rfl⟩
    have hroot : rootOf? (letter :: accidental ++ [digit])
        = some (letter.toUpper :: accidental, [digit]) := by
      rw [List.cons_append, rootOf?_cons hletter]
      rcases haccidental with rfl | rfl | rfl
      · have hnot := isAccidental_of_kind (by decide) (by decide) hdigit
        rw [List.nil_append, accidentalOf_of_not (by simpa using hnot)]
        rfl
      · rfl
      · rfl
    unfold ofText?
    rw [hroot]
    dsimp only
    rw [if_pos hdigit]
    exact ⟨_, rfl⟩

/-- A token, taken apart as reading does. -/
theorem IsToken.exists_behind {word : List Char} (h : IsToken word) :
    ∃ letter behind, word = letter :: behind ∧ isNoteLetter letter = true ∧
      ∀ c ∈ behind.drop (accidentalOf behind).length, Text.isWordChar c = true := by
  obtain ⟨_, rest, ⟨letter, accidental, hletter, haccidental, rfl⟩, hrest, rfl⟩ := h
  refine ⟨letter, accidental ++ rest, rfl, hletter, ?_⟩
  rcases haccidental with rfl | rfl | rfl
  · -- a word character there may be taken for a flat
    exact fun c hc => hrest c (List.mem_of_mem_drop hc)
  · exact hrest
  · exact hrest

theorem IsToken.mem {word : List Char} (h : IsToken word) {c : Char} (hc : c ∈ word) :
    Text.isWordChar c = true ∨ c = '#' := by
  obtain ⟨_, rest, ⟨letter, accidental, hletter, haccidental, rfl⟩, hrest, rfl⟩ := h
  rcases List.mem_append.mp hc with hc | hc
  · rcases List.mem_cons.mp hc with rfl | hc
    · exact .inl (isWordChar_of_isNoteLetter hletter)
    · rcases haccidental with rfl | rfl | rfl
      · cases hc
      · exact .inr (List.mem_singleton.mp hc)
      · rw [List.mem_singleton.mp hc]
        exact .inl rfl
  · exact .inl (hrest c hc)

namespace Sheet

/-! ## Reading a token and an argument -/

theorem pitchedWord?_cons {letter : Char} (hletter : isNoteLetter letter = true)
    (behind : List Char) :
    pitchedWord? (letter :: behind)
      = some (letter :: accidentalOf behind
            ++ (behind.drop (accidentalOf behind).length).takeWhile Text.isWordChar,
          (behind.drop (accidentalOf behind).length).dropWhile Text.isWordChar) := by
  rw [pitchedWord?, hletter]
  rfl

/-- A token is read up to its end. -/
theorem pitchedWord?_append {word : List Char} (h : IsToken word) {rest : List Char}
    (hrest : ∀ c ∈ rest.head?, Text.isWordChar c = false ∧ isAccidental c = false) :
    pitchedWord? (word ++ rest) = some (word, rest) := by
  obtain ⟨letter, behind, rfl, hletter, hbehind⟩ := h.exists_behind
  have haccidental : accidentalOf (behind ++ rest) = accidentalOf behind := by
    cases behind with
    | nil => exact accidentalOf_of_not fun c hc => (hrest c hc).2
    | cons c behind => rfl
  have hsplit := accidentalOf_append_drop behind
  have hlength : (accidentalOf behind).length ≤ behind.length := by
    rw [← congrArg List.length hsplit, List.length_append]
    exact Nat.le_add_right _ _
  have htake : rest.takeWhile Text.isWordChar = [] := by
    cases rest with
    | nil => rfl
    | cons c rest => exact List.takeWhile_cons_of_neg (Bool.eq_false_iff.mp (hrest c rfl).1)
  have hdrop : rest.dropWhile Text.isWordChar = rest := by
    cases rest with
    | nil => rfl
    | cons c rest => exact List.dropWhile_cons_of_neg (Bool.eq_false_iff.mp (hrest c rfl).1)
  rw [List.cons_append, pitchedWord?_cons hletter, haccidental,
    List.drop_append_of_le_length hlength, List.takeWhile_append_of_pos hbehind,
    List.dropWhile_append_of_pos hbehind, htake, hdrop, List.append_nil, List.cons_append, hsplit]

/-- An entry that can be written: its word is a token, and its argument is there and ends at the
parenthesis, inside the slot. -/
structure Writable (e : Entry) : Prop where
  word : IsToken e.word
  argument : e.argument ≠ []
  closed : ')' ∉ e.argument
  inside : '|' ∉ e.argument

theorem argument?_append {gap argument : List Char} (hgap : ∀ c ∈ gap, Text.isBlank c = true)
    (hne : argument ≠ []) (hclosed : ')' ∉ argument) (rest : List Char) :
    argument? (gap ++ '(' :: (argument ++ ')' :: rest)) = some (argument, rest) := by
  have hkept : ∀ c ∈ argument, decide (c ≠ ')') = true := by
    intro c hc
    exact decide_eq_true fun heq => hclosed (heq ▸ hc)
  have hopen : (gap ++ '(' :: (argument ++ ')' :: rest)).dropWhile Text.isBlank
      = '(' :: (argument ++ ')' :: rest) := by
    rw [List.dropWhile_append_of_pos hgap]
    rfl
  have htake : (argument ++ ')' :: rest).takeWhile (· ≠ ')') = argument := by
    rw [List.takeWhile_append_of_pos hkept, List.takeWhile_cons_of_neg (by decide), List.append_nil]
  have hdrop : (argument ++ ')' :: rest).dropWhile (· ≠ ')') = ')' :: rest := by
    rw [List.dropWhile_append_of_pos hkept, List.dropWhile_cons_of_neg (by decide)]
  simp only [argument?, hopen, htake, hdrop, if_neg hne]

/-! ## Reading entries -/

section

variable {word? : List Char → Option (List Char × List Char)}

theorem entriesFrom_eq_drop (skip : Nat) (text : List Char) :
    entriesFrom word? skip text = entries word? (text.drop skip) := by
  induction text generalizing skip with
  | nil => rw [List.drop_nil]; rfl
  | cons c text ih =>
    cases skip with
    | zero => rfl
    | succ skip => exact ih skip

/-- Behind an entry the reading goes on with the rest. -/
theorem entries_append {start behind : List Char} {e : Entry} (hne : start ≠ [])
    (h : entry? word? (start ++ behind) = some (e, behind)) :
    entries word? (start ++ behind) = e :: entries word? behind := by
  obtain ⟨c, start, rfl⟩ := List.exists_cons_of_ne_nil hne
  rw [List.cons_append] at h ⊢
  rw [entries, entriesFrom, h]
  dsimp only
  rw [entriesFrom_eq_drop, List.length_append, Nat.add_sub_cancel, List.drop_left]

/-- What no word starts with is passed over. -/
theorem entries_append_of_none {start : List Char}
    (h : ∀ c ∈ start, ∀ rest, word? (c :: rest) = none) (text : List Char) :
    entries word? (start ++ text) = entries word? text := by
  induction start with
  | nil => rfl
  | cons c start ih =>
    obtain ⟨hc, hstart⟩ := List.forall_mem_cons.mp h
    have hnone : entry? word? (c :: (start ++ text)) = none := by rw [ entry?, hc]
    rw [List.cons_append, entries, entriesFrom, hnone]
    exact ih hstart

end

theorem isWordChar_of_isBlank {c : Char} (hc : Text.isBlank c = true) :
    Text.isWordChar c = false := by
  refine Bool.eq_false_iff.mpr fun hword => ?_
  have hnot := Text.ascii_induction
    (p := fun c => Text.isWordChar c = true → Text.isBlank c = false) (by decide)
    (Text.ascii_of_isWordChar hword) hword
  exact Bool.false_ne_true (hnot.symm.trans hc)

theorem pitchedWord?_of_isBlank {c : Char} (hc : Text.isBlank c = true) (rest : List Char) :
    pitchedWord? (c :: rest) = none := by
  have hletter : isNoteLetter c = false := by
    refine Bool.eq_false_iff.mpr fun h => ?_
    have hword := isWordChar_of_isNoteLetter h
    exact Bool.false_ne_true ((isWordChar_of_isBlank hc).symm.trans hword)
  rw [pitchedWord?, hletter]
  rfl

theorem entries_blanks_append {blanks : List Char} (h : ∀ c ∈ blanks, Text.isBlank c = true)
    (text : List Char) : entries pitchedWord? (blanks ++ text) = entries pitchedWord? text :=
  entries_append_of_none (fun c hc => pitchedWord?_of_isBlank (h c hc)) text

/-! ## Written slots -/

/-- An entry as it is written, with blanks before its parenthesis. -/
def Entry.text (gap : List Char) (e : Entry) : List Char :=
  e.word ++ gap ++ '(' :: (e.argument ++ [')'])

theorem Entry.text_ne_nil (gap : List Char) (e : Entry) : e.text gap ≠ [] := by
  simp [Entry.text]

theorem Entry.not_isBlank_of_getLast? (gap : List Char) (e : Entry) :
    ∀ c ∈ (e.text gap).getLast?, Text.isBlank c = false := by
  intro c hc
  have hlast : (e.text gap).getLast? = some ')' := by
    rw [text, ← List.cons_append, ← List.append_assoc, List.getLast?_concat]
  rw [hlast] at hc
  obtain rfl := Option.some.inj hc
  decide

/-- A text in which entries are written one after the other, with as many blanks before and behind
them as one likes. -/
inductive Written : List Entry → List Char → Prop
  | nil {blanks : List Char} (hblanks : ∀ c ∈ blanks, Text.isBlank c = true) : Written [] blanks
  | cons (blanks gap : List Char) {text : List Char} {e : Entry} {es : List Entry}
      (hblanks : ∀ c ∈ blanks, Text.isBlank c = true) (hgap : ∀ c ∈ gap, Text.isBlank c = true)
      (he : Writable e) (htext : Written es text) :
      Written (e :: es) (blanks ++ (e.text gap ++ text))

namespace Writable

variable {e : Entry} {gap : List Char} (he : Writable e)

include he

/-- An entry is read up to its closing parenthesis. -/
theorem reads (hgap : ∀ c ∈ gap, Text.isBlank c = true) (text : List Char) :
    entry? pitchedWord? (e.text gap ++ text) = some (e, text) := by
  have hopen : e.text gap ++ text = e.word ++ (gap ++ '(' :: (e.argument ++ ')' :: text)) := by
    simp [Entry.text]
  have hrest : ∀ c ∈ (gap ++ '(' :: (e.argument ++ ')' :: text)).head?,
      Text.isWordChar c = false ∧ isAccidental c = false := by
    intro c hc
    cases gap with
    | nil =>
      obtain rfl := Option.some.inj hc
      decide
    | cons b gap =>
      obtain rfl := Option.some.inj hc
      have hblank := hgap b List.mem_cons_self
      exact ⟨isWordChar_of_isBlank hblank, isAccidental_of_kind (by decide) (by decide) hblank⟩
  rw [hopen, entry?, pitchedWord?_append he.word hrest]
  dsimp only
  rw [argument?_append hgap he.argument he.closed]
  rfl

theorem not_isBlank_of_head? : ∀ c ∈ (e.text gap).head?, Text.isBlank c = false := by
  obtain ⟨letter, behind, hword, hletter, -⟩ := he.word.exists_behind
  intro c hc
  rw [Entry.text, hword] at hc
  obtain rfl := Option.some.inj hc
  refine Bool.eq_false_iff.mpr fun hblank => ?_
  have hnot := isWordChar_of_isBlank hblank
  exact Bool.false_ne_true (hnot.symm.trans (isWordChar_of_isNoteLetter hletter))

theorem not_mem_text (hgap : ∀ c ∈ gap, Text.isBlank c = true) : '|' ∉ e.text gap := by
  simp only [Entry.text, List.mem_append, List.mem_cons, List.not_mem_nil, or_false, not_or]
  refine ⟨⟨fun hmem => ?_, fun hmem => ?_⟩, by decide, he.inside, by decide⟩
  · exact absurd (he.word.mem hmem) (by decide)
  · exact absurd (hgap _ hmem) (by decide)

end Writable

namespace Written

variable {es : List Entry} {text : List Char}

/-- What is written is read. -/
theorem entries_eq (h : Written es text) : entries pitchedWord? text = es := by
  induction h with
  | nil hblanks =>
    have hnone := entries_blanks_append hblanks []
    rwa [List.append_nil] at hnone
  | cons blanks gap hblanks hgap he htext ih =>
    rw [entries_blanks_append hblanks,
      entries_append (Entry.text_ne_nil gap _) (he.reads hgap _), ih]

theorem trimEnd (h : Written es text) : Written es (Text.trimEnd text) := by
  induction h with
  | nil hblanks =>
    rw [Text.trimEnd_of_blank hblanks]
    exact .nil fun c hc => absurd hc List.not_mem_nil
  | @cons blanks gap text e es hblanks hgap he htext ih =>
    have hlast : ∀ c ∈ (blanks ++ e.text gap).getLast?, Text.isBlank c = false := by
      rw [List.getLast?_append_of_ne_nil _ (Entry.text_ne_nil gap e)]
      exact e.not_isBlank_of_getLast? gap
    rw [← List.append_assoc, Text.trimEnd_append_of_not_isBlank hlast, List.append_assoc]
    exact .cons blanks gap hblanks hgap he ih

/-- Trimming leaves what is written. -/
theorem trim (h : Written es text) : Written es (Text.trim text) := by
  cases h with
  | nil hblanks =>
    have hempty : Text.trim text = [] := Text.trim_append [] hblanks
    rw [hempty]
    exact .nil fun c hc => absurd hc List.not_mem_nil
  | @cons blanks gap text e es hblanks hgap he htext =>
    rw [Text.trim_blanks_append _ hblanks, Text.trim_append_of_not_isBlank (e.text_ne_nil gap)
      he.not_isBlank_of_head? (e.not_isBlank_of_getLast? gap)]
    exact .cons [] gap (fun c hc => absurd hc List.not_mem_nil) hgap he htext.trimEnd

/-- A slot is not cut apart. -/
theorem not_mem (h : Written es text) : '|' ∉ text := by
  induction h with
  | nil hblanks => exact fun hmem => absurd (hblanks _ hmem) (by decide)
  | cons blanks gap hblanks hgap he htext ih =>
    rw [List.mem_append, List.mem_append, not_or, not_or]
    exact ⟨fun hmem => absurd (hblanks _ hmem) (by decide), he.not_mem_text hgap, ih⟩

end Written

/-! ## Written patterns -/

/-- The note or the chord that an entry gives if it starts on a beat. It is a note exactly if the
word is a root with one digit. -/
structure Gives (v : Vocabulary α) (start : α) (e : Entry) (s : Sounding α) : Prop where
  note : IsNoteToken e.word → ∃ token, NoteToken.ofText? v e.word = some token ∧
    s = .note ⟨token.pitch, start, (Params.ofText v e.argument).duration,
      (Params.ofText v e.argument).velocity⟩
  chord : ¬IsNoteToken e.word →
    s = .chord ⟨(ChordSymbol.ofText v e.word).root, (ChordSymbol.ofText v e.word).quality,
      Scalar.ofNat (ChordSymbol.ofText v e.word).octave, start,
      (Params.ofText v e.argument).duration, (Params.ofText v e.argument).velocity⟩

/-- One note or chord for each entry, in their order: it starts when those before it have ended, and
the first one on the first beat of the bar. -/
structure GivesInTurn (v : Vocabulary α) (bar : α) (es : List Entry) (sounds : List (Sounding α)) :
    Prop where
  length : sounds.length = es.length
  gives : ∀ k e s, es[k]? = some e → sounds[k]? = some s →
    Gives v (bar + offsetBehind v 0 (es.take k)) e s

section

variable {v : Vocabulary α}

theorem gives_soundingOf (start : α) (e : Entry) :
    Gives v start e (soundingOf v e.word start (Params.ofText v e.argument)) where
  note h := by
    obtain ⟨token, htoken⟩ := (NoteToken.exists_ofText?_iff v).mpr h
    refine ⟨token, htoken, ?_⟩
    rw [soundingOf, htoken]
  chord h := by
    have hnone : NoteToken.ofText? v e.word = none :=
      Option.eq_none_iff_forall_ne_some.mpr fun token htoken =>
        h ((NoteToken.exists_ofText?_iff v).mp ⟨token, htoken⟩)
    rw [soundingOf, hnone]

theorem getElem?_layOut (bar offset : α) (es : List Entry) (k : Nat) :
    (layOut v bar offset es)[k]? = es[k]?.map fun e =>
      soundingOf v e.word (bar + offsetBehind v offset (es.take k))
        (Params.ofText v e.argument) := by
  induction es generalizing offset k with
  | nil => rfl
  | cons e es ih =>
    cases k with
    | zero => rfl
    | succ k => exact ih _ k

theorem givesInTurn_layOut (bar : α) (es : List Entry) :
    GivesInTurn v bar es (layOut v bar 0 es) where
  length := (forall₂_layOut bar 0 es).length_eq.symm
  gives k e s he hs := by
    rw [getElem?_layOut, he] at hs
    obtain rfl := Option.some.inj hs
    exact gives_soundingOf _ e

/-- A pattern of written slots gives what their entries give. -/
theorem flatten_gathered_written {slots : List (List Entry)} {texts : List (List Char)}
    (h : List.Forall₂ Written slots texts) :
    (gathered (slotSoundings v) (Text.join ['|'] texts)).flatten
      = (slots.mapIdx fun i slot => layOut v (barStart i) 0 slot).flatten := by
  by_cases hne : texts = []
  · subst hne
    obtain rfl := List.forall₂_nil_right_iff.mp h
    rfl
  · have hslots : ∀ text ∈ texts, '|' ∉ text := by
      intro text htext
      obtain ⟨i, hi, rfl⟩ := List.getElem_of_mem htext
      exact (h.get (h.length_eq.symm ▸ hi) hi).not_mem
    rw [gathered_join _ hne hslots]
    congr 1
    refine List.ext_getElem (by simp [h.length_eq]) fun i htext hslot => ?_
    rw [List.length_mapIdx] at htext hslot
    have hwritten := (h.get hslot htext).trim
    rw [List.getElem_mapIdx, List.getElem_mapIdx, slotSoundings_eq]
    exact congrArg _ hwritten.entries_eq

end

/-- **What is written is read without loss.** A pattern of written slots gives for every slot one
note or chord for each of its entries, in their order and with the duration and the velocity of the
entry's argument: a note if the word is a root with one digit, and otherwise the chord that the word
is a symbol of. -/
theorem read_written (v : Vocabulary α) {slots : List (List Entry)} {texts : List (List Char)}
    (h : List.Forall₂ Written slots texts) :
    let pattern := PitchedPattern.ofText v (Text.join ['|'] texts)
    ∃ sounds : List (List (Sounding α)), sounds.length = slots.length ∧
      (∀ i slot given, slots[i]? = some slot → sounds[i]? = some given →
        GivesInTurn v (barStart i) slot given) ∧
      pattern.notes = sounds.flatten.filterMap Sounding.note? ∧
      pattern.chords = sounds.flatten.filterMap Sounding.chord? := by
  refine ⟨slots.mapIdx fun i slot => layOut v (barStart i) 0 slot, List.length_mapIdx,
    fun i slot given hslot hgiven => ?_, ?_, ?_⟩
  · rw [List.getElem?_mapIdx, hslot] at hgiven
    obtain rfl := Option.some.inj hgiven
    exact givesInTurn_layOut _ slot
  · rw [notes_ofText, flatten_gathered_written h]
  · rw [chords_ofText, flatten_gathered_written h]

/-- Slots with a flat that looks like a note letter, chords, and a parenthesis in an argument. -/
def flatsAndChords : List (List Entry) :=
  [[⟨"bb4".toList, "h".toList⟩, ⟨"Bb".toList, "pp, e".toList⟩, ⟨"b4m7".toList, "(q".toList⟩], [],
    [⟨"C#".toList, "w,".toList⟩]]

/-- The slots as they are written. -/
def flatsAndChordsWritten : List (List Char) :=
  ["bb4(h)Bb \t(pp, e)\nb4m7((q) ".toList, " ".toList, "C#(w,)".toList]

theorem written_flatsAndChords : List.Forall₂ Written flatsAndChords flatsAndChordsWritten := by
  have hnone : ∀ {p : Char → Prop}, ∀ c ∈ [], p c := fun {p} => List.forall_mem_nil p
  have hspace : ∀ c ∈ [' '], Text.isBlank c = true := List.all_eq_true.mp (by decide)
  have htab : ∀ c ∈ [' ', '\t'], Text.isBlank c = true := List.all_eq_true.mp (by decide)
  have hfeed : ∀ c ∈ ['\n'], Text.isBlank c = true := List.all_eq_true.mp (by decide)
  have hflat : Writable ⟨_, ['h']⟩ :=
    ⟨isToken_append 'b' ['b'] ['4'] (by decide) (by decide) (List.all_eq_true.mp (by decide)),
      by decide, by decide, by decide⟩
  have hchord : Writable ⟨_, "pp, e".toList⟩ :=
    ⟨isToken_append 'B' ['b'] [] (by decide) (by decide) hnone, by decide, by decide, by decide⟩
  have hseventh : Writable ⟨_, "(q".toList⟩ :=
    ⟨isToken_append 'b' [] "4m7".toList (by decide) (by decide) (List.all_eq_true.mp (by decide)),
      by decide, by decide, by decide⟩
  have hsharp : Writable ⟨_, "w,".toList⟩ :=
    ⟨isToken_append 'C' ['#'] [] (by decide) (by decide) hnone, by decide, by decide, by decide⟩
  have hfirst : Written flatsAndChords[0] flatsAndChordsWritten[0] :=
    .cons [] [] hnone hnone hflat <|
      .cons [] [' ', '\t'] hnone htab hchord <|
        .cons ['\n'] [] hfeed hnone hseventh (.nil hspace)
  have hlast : Written flatsAndChords[2] flatsAndChordsWritten[2] :=
    .cons [] [] hnone hnone hsharp (.nil hnone)
  exact .cons hfirst (.cons (.nil hspace) (.cons hlast .nil))

theorem read_written_flatsAndChords :
    let pattern : PitchedPattern Rat :=
      .ofText Vocabulary.standard (Text.join ['|'] flatsAndChordsWritten)
    List.Forall₂ Written flatsAndChords flatsAndChordsWritten ∧
    pattern.notes.map (fun n => (n.pitch, n.start, n.duration)) = [(70, 0, 2)] ∧
    pattern.chords.map (fun c => (c.root, c.quality, c.start, c.duration))
      = [("Bb", "", 2, 1 / 2), ("B", "4m7", 5 / 2, 1), ("C#", "", 8, 4)] ∧
    ∃ sounds : List (List (Sounding Rat)), sounds.length = 3 ∧
      pattern.notes = sounds.flatten.filterMap Sounding.note? ∧
      pattern.chords = sounds.flatten.filterMap Sounding.chord? := by
  obtain ⟨sounds, hlength, -, hnotes, hchords⟩ :=
    read_written (Vocabulary.standard : Vocabulary Rat) written_flatsAndChords
  exact ⟨written_flatsAndChords, by decide +kernel, by decide +kernel, sounds, hlength, hnotes,
    hchords⟩

end Sheet

end LeadSheet
