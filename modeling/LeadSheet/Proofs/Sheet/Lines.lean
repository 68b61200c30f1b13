import LeadSheet.Proofs.Sheet.Coherent
import LeadSheet.Proofs.Sheet.Markers
import LeadSheet.Proofs.Sheet.Settled

/-!
# Sections come from their lines

Whatever sounds in a section comes from an entry of one of its lines: a note or a chord from an
entry of a melodic pattern, which begins as far behind the first beat of its bar as the entries
before it in the slot last, and a hit from a beat of a drum (`fromLines_of_outcome`). A pattern that
is not warned of reaches over no more bars than its section has, so that the slots with entries are
bars of the section.

An entry is not made up either. Cutting, trimming and cleaning leave the words of a text as they
are, and repair only puts blanks between them, so the words of all entries stand in the text
(`infix_of_entryAt`).
-/

namespace LeadSheet.Sheet

variable {α : Type} [Scalar α] {v : Vocabulary α}

/-! ## Entries of a pattern -/

/-- The offset behind entries that follow each other from an offset on. -/
def offsetBehind (v : Vocabulary α) (offset : α) (entries : List Entry) : α :=
  entries.foldl (fun offset e => offset + (Params.ofText v e.argument).duration) offset

/-- An entry of a melodic pattern: it is in the slot with this index, and behind others there. -/
def EntryAt (pattern : List Char) (index : Nat) (before : List Entry) (e : Entry) : Prop :=
  ∃ slot after, (slotsOf pattern)[index]? = some slot ∧
    entries pitchedWord? slot = before ++ e :: after

/-- A beat of a drum in a pattern: it is in the slot with this index, and so far behind the first
beat of the bar. -/
def BeatAt (pattern : List Char) (index : Nat) (offset : α) : Prop :=
  ∃ slot e beats, (slotsOf pattern)[index]? = some slot ∧ e ∈ entries drumWord? slot ∧
    Beats.ofText? e.argument = some beats ∧ offset ∈ beats.offsets

theorem exists_of_mem_layOut {bar offset : α} {entries : List Entry} {s : Sounding α}
    (h : s ∈ layOut v bar offset entries) :
    ∃ before e after, entries = before ++ e :: after ∧
      s = soundingOf v e.word (bar + offsetBehind v offset before)
        (Params.ofText v e.argument) := by
  induction entries generalizing offset with
  | nil => exact absurd h List.not_mem_nil
  | cons first rest ih =>
    rcases List.mem_cons.mp h with rfl | h
    · exact ⟨[], first, rest, rfl, rfl⟩
    · obtain ⟨before, e, after, rfl, hs⟩ := ih h
      exact ⟨first :: before, e, after, rfl, hs⟩

section

variable {β : Type}

theorem lastUsed_concat (slots : List (List β)) (last : List β) :
    lastUsed (slots ++ [last]) = if last.isEmpty then lastUsed slots else slots.length + 1 := by
  unfold lastUsed
  rw [List.reverse_concat, List.dropWhile_cons]
  split
  · rfl
  · rw [List.length_cons, List.length_reverse]

/-- A slot that is not empty is used. -/
theorem lt_lastUsed {slots : List (List β)} {index : Nat} {slot : List β}
    (h : slots[index]? = some slot) (hne : slot ≠ []) : index < lastUsed slots := by
  induction slots using List.reverseRecOn with
  | nil => cases h
  | append_singleton slots last ih =>
    have hlength := (List.getElem?_eq_some_iff.mp h).1
    rw [List.length_append, List.length_singleton] at hlength
    rw [lastUsed_concat]
    split
    · next hempty =>
      -- the slot is not the last one, since that is empty
      by_cases hindex : index < slots.length
      · rw [List.getElem?_append_left hindex] at h
        exact ih h
      · obtain rfl : index = slots.length := by omega
        rw [List.getElem?_concat_length] at h
        obtain rfl := Option.some.inj h
        exact absurd (List.isEmpty_iff.mp hempty) hne
    · exact hlength

/-- What a slot holds, and that it is used. -/
theorem exists_of_mem_slots {slots : List (List Char)} {f : Nat → List Char → List β} {x : β}
    (h : x ∈ (slots.mapIdx f).flatten) :
    ∃ index slot, slots[index]? = some slot ∧ x ∈ f index slot ∧
      index < lastUsed (slots.mapIdx f) := by
  obtain ⟨held, hheld, hx⟩ := List.mem_flatten.mp h
  obtain ⟨index, hindex, rfl⟩ := List.mem_mapIdx.mp hheld
  have hslot := List.getElem?_eq_getElem hindex
  have hmapped : (slots.mapIdx f)[index]? = some (f index slots[index]) := by
    rw [List.getElem?_mapIdx, hslot]
    rfl
  exact ⟨index, slots[index], hslot, hx, lt_lastUsed hmapped (List.ne_nil_of_mem hx)⟩

end

/-- Where a note or a chord of a pattern comes from. -/
theorem exists_entryAt {pattern : List Char} {s : Sounding α}
    (h : s ∈ ((slotsOf pattern).mapIdx fun index slot =>
      slotSoundings v (barStart index) slot).flatten) :
    ∃ index before e, EntryAt pattern index before e ∧
      index < (PitchedPattern.ofText v pattern).barsUsed ∧
      s = soundingOf v e.word (barStart index + offsetBehind v 0 before)
        (Params.ofText v e.argument) := by
  obtain ⟨index, slot, hslot, hs, hused⟩ := exists_of_mem_slots h
  unfold slotSoundings at hs
  split at hs
  · exact absurd hs List.not_mem_nil
  · obtain ⟨before, e, after, hentries, hs⟩ := exists_of_mem_layOut hs
    exact ⟨index, before, e, ⟨slot, after, hslot, hentries⟩, hused, hs⟩

theorem exists_entryAt_note {pattern : List Char} {n : Note α}
    (hn : n ∈ (PitchedPattern.ofText v pattern).notes) :
    ∃ index before e, EntryAt pattern index before e ∧
      index < (PitchedPattern.ofText v pattern).barsUsed ∧
      .note n = soundingOf v e.word (barStart index + offsetBehind v 0 before)
        (Params.ofText v e.argument) := by
  obtain ⟨s, hs, heq⟩ := List.mem_filterMap.mp hn
  cases s with
  | note n' =>
    obtain rfl := Option.some.inj heq
    exact exists_entryAt hs
  | chord c => cases heq

theorem exists_entryAt_chord {pattern : List Char} {c : Chord α}
    (hc : c ∈ (PitchedPattern.ofText v pattern).chords) :
    ∃ index before e, EntryAt pattern index before e ∧
      index < (PitchedPattern.ofText v pattern).barsUsed ∧
      .chord c = soundingOf v e.word (barStart index + offsetBehind v 0 before)
        (Params.ofText v e.argument) := by
  obtain ⟨s, hs, heq⟩ := List.mem_filterMap.mp hc
  cases s with
  | note n => cases heq
  | chord c' =>
    obtain rfl := Option.some.inj heq
    exact exists_entryAt hs

theorem exists_beatAt {pattern : List Char} {hit : DrumHit α}
    (hhit : hit ∈ (DrumPattern.ofText pattern).hits) :
    ∃ index offset, BeatAt pattern index offset ∧
      index < (DrumPattern.ofText (α := α) pattern).barsUsed ∧
      hit.start = barStart index + offset := by
  obtain ⟨index, slot, hslot, hhit, hused⟩ := exists_of_mem_slots hhit
  unfold slotHits at hhit
  split at hhit
  · exact absurd hhit List.not_mem_nil
  · obtain ⟨e, he, hhit⟩ := List.mem_flatMap.mp hhit
    unfold entryHits at hhit
    split at hhit
    · exact absurd hhit List.not_mem_nil
    · next beats hbeats =>
      obtain ⟨offset, hoffset, rfl⟩ := List.mem_map.mp hhit
      exact ⟨index, offset, ⟨slot, e, beats, hslot, he, hbeats, hoffset⟩, hused, rfl⟩

/-! ## Lines of a section -/

/-- The lines of a piece of text, without its first one. -/
def linesOf (piece : List Char) : List Line :=
  (((pieceLines piece).2.map Text.trim).filter (· ≠ [])).map Line.ofText

/-- Tracks and drums as lines give them. If the section is quiet, nothing was warned of, and no
pattern reaches over more than its bars. -/
structure FromLines (v : Vocabulary α) (lines : List Line) (bars : Nat) (quiet : Prop)
    (tracks : List (Track α)) (drums : Option (DrumTrack α)) : Prop where
  tracks : ∀ t ∈ tracks, ∃ word pattern, .instrument word pattern ∈ lines ∧
    t.notes = (PitchedPattern.ofText v pattern).notes ∧
    t.chords = (PitchedPattern.ofText v pattern).chords ∧
    (quiet → (PitchedPattern.ofText v pattern).barsUsed ≤ bars)
  drums : ∀ d ∈ drums, ∀ hit ∈ d.hits, ∃ pattern, .drums pattern ∈ lines ∧
    hit ∈ (DrumPattern.ofText pattern).hits ∧
    (quiet → (DrumPattern.ofText (α := α) pattern).barsUsed ≤ bars)

namespace FromLines

variable {lines : List Line} {bars : Nat} {quiet : Prop} {tracks : List (Track α)}
  {drums : Option (DrumTrack α)}

theorem of_imp (h : FromLines v lines bars quiet tracks drums) {other : Prop}
    (himp : other → quiet) : FromLines v lines bars other tracks drums where
  tracks t ht := by
    obtain ⟨word, pattern, hline, hnotes, hchords, hused⟩ := h.tracks t ht
    exact ⟨word, pattern, hline, hnotes, hchords, fun hother => hused (himp hother)⟩
  drums d hd hit hhit := by
    obtain ⟨pattern, hline, hhits, hused⟩ := h.drums d hd hit hhit
    exact ⟨pattern, hline, hhits, fun hother => hused (himp hother)⟩

variable {body : Body α}
  (hbody : FromLines v lines bars (body.warnings = []) body.tracks body.drums)

include hbody

theorem warned (more : List Warning) :
    FromLines v lines bars (body.warnings ++ more = []) body.tracks body.drums :=
  hbody.of_imp fun hnone => (List.append_eq_nil_iff.mp hnone).1

theorem addDrums (name : String) {pattern : List Char} (hline : .drums pattern ∈ lines) :
    FromLines v lines bars ((body.addDrums name bars pattern).warnings = [])
      (body.addDrums name bars pattern).tracks (body.addDrums name bars pattern).drums := by
  refine ⟨(hbody.warned _).tracks, fun d hd hit hhit => ?_⟩
  obtain rfl := Option.some.inj hd
  rcases List.mem_append.mp hhit with hbefore | hnew
  · cases hdrums : body.drums with
    | none =>
      rw [hdrums] at hbefore
      cases hbefore
    | some d =>
      rw [hdrums] at hbefore
      exact (hbody.warned _).drums d hdrums hit hbefore
  · refine ⟨pattern, hline, hnew, fun hnone => not_lt.mp fun hlong => ?_⟩
    obtain ⟨-, hwarned⟩ := List.append_eq_nil_iff.mp hnone
    rw [if_pos hlong] at hwarned
    cases hwarned

theorem addTrack (name : String) {word pattern : List Char}
    (hline : .instrument word pattern ∈ lines) :
    FromLines v lines bars ((body.addTrack v name bars word pattern).warnings = [])
      (body.addTrack v name bars word pattern).tracks
      (body.addTrack v name bars word pattern).drums := by
  unfold Body.addTrack
  dsimp only
  split
  · exact hbody.warned _
  · refine ⟨fun t ht => ?_, (hbody.warned _).drums⟩
    rcases List.mem_append.mp ht with hbefore | hnew
    · exact (hbody.warned _).tracks t hbefore
    · obtain rfl := List.mem_singleton.mp hnew
      refine ⟨word, pattern, hline, rfl, rfl, fun hnone => not_lt.mp fun hlong => ?_⟩
      obtain ⟨-, hwarned⟩ := List.append_eq_nil_iff.mp hnone
      rw [if_pos hlong] at hwarned
      cases hwarned

/-- What one line adds to a section. -/
theorem addLine (name : String) {line : Line} (hline : line ∈ lines) :
    FromLines v lines bars ((body.addLine v name bars line).warnings = [])
      (body.addLine v name bars line).tracks (body.addLine v name bars line).drums := by
  cases line with
  | drums pattern => exact hbody.addDrums name hline
  | instrument word pattern => exact hbody.addTrack name hline
  | header field => exact hbody
  | unrecognized text => exact hbody

end FromLines

/-- A section that was read comes from the lines of its piece of text. -/
theorem fromLines_readSection (key : String) (tempo : α) (piece : List Char) :
    ∃ bars, (readSection v key tempo piece).read.bars = Scalar.ofNat bars ∧
      FromLines v (linesOf piece) bars ((readSection v key tempo piece).warnings = [])
        (readSection v key tempo piece).read.tracks (readSection v key tempo piece).read.drums := by
  refine ⟨_, rfl, ?_⟩
  have hbody : ∀ name bars,
      let body := (linesOf piece).foldl (Body.addLine v name bars) Body.empty
      FromLines v (linesOf piece) bars (body.warnings = []) body.tracks body.drums := by
    intro name bars
    refine List.foldlRecOn (motive := fun body : Body α =>
      FromLines v (linesOf piece) bars (body.warnings = []) body.tracks body.drums) _ _ ?_ ?_
    · exact ⟨fun _ hmem => absurd hmem List.not_mem_nil, fun _ hmem => nomatch hmem⟩
    · exact fun body hbody line hline => hbody.addLine name hline
  refine (hbody _ _).of_imp fun hnone => ?_
  obtain ⟨hbefore, -⟩ := List.append_eq_nil_iff.mp hnone
  exact (List.append_eq_nil_iff.mp hbefore).2

/-- Behind what is said of the tempo come the warnings of the sections. -/
theorem warnings_of_outcome {text : String} {s : Score α} (h : (read v text).outcome = .ok s) :
    ∃ before, (read v text).warnings = before ++
      (sectionPieces (clean (repair text.toList))).flatMap fun piece =>
        (readSection v s.key s.tempo piece).warnings := by
  unfold read at h ⊢
  dsimp only at h ⊢
  split at h
  · cases h
  · next hcontent =>
    rw [if_neg hcontent]
    generalize clean (repair text.toList) = cleaned at h ⊢
    unfold readCleaned at h ⊢
    dsimp only at h ⊢
    split at h
    · cases h
    · obtain rfl := Except.ok.inj h
      exact ⟨_, congrArg _ (List.flatMap_map ..)⟩

/-- **All that sounds comes from the lines of the sheet.** Each section of a score that was read
comes from the lines of a piece of the cleaned text, and if there were no warnings at all, none of
its patterns reaches over more than its bars. -/
theorem fromLines_of_outcome {text : String} {s : Score α} (h : (read v text).outcome = .ok s)
    {part : Section α} (hpart : part ∈ s.sections) :
    ∃ piece ∈ sectionPieces (clean (repair text.toList)), ∃ bars,
      part.bars = Scalar.ofNat bars ∧
      FromLines v (linesOf piece) bars ((read v text).warnings = []) part.tracks part.drums := by
  rw [sections_of_outcome h] at hpart
  obtain ⟨s', hs', startBar, rfl⟩ := exists_of_mem_placeFrom hpart
  obtain ⟨piece, hpiece, rfl⟩ := List.mem_map.mp hs'
  obtain ⟨bars, hbars, hlines⟩ := fromLines_readSection (v := v) s.key s.tempo piece
  refine ⟨piece, hpiece, bars, hbars, hlines.of_imp fun hnone => ?_⟩
  obtain ⟨before, hwarnings⟩ := warnings_of_outcome h
  rw [hwarnings] at hnone
  exact List.flatMap_eq_nil_iff.mp (List.append_eq_nil_iff.mp hnone).2 piece hpiece

/-! ## Words of the text -/

/-- No blank that repair could have put in is among the characters of a word. -/
def Unspaced (word : List Char) : Prop := ∀ c ∈ word, c ≠ '\n' ∧ c ≠ ' '

/-- Characters of a kind that line feeds and spaces are not of. -/
theorem unspaced_of_kind {kind : Char → Bool} (hfeed : kind '\n' = false)
    (hspace : kind ' ' = false) {c : Char} (hc : kind c = true) : c ≠ '\n' ∧ c ≠ ' ' := by
  constructor
  · rintro rfl
    exact absurd hc (Bool.eq_false_iff.mp hfeed)
  · rintro rfl
    exact absurd hc (Bool.eq_false_iff.mp hspace)

/-- A pitched word stands at the start of the text it is read from, and has no blank in it. -/
theorem pitchedWord?_eq_some {text word rest : List Char}
    (h : pitchedWord? text = some (word, rest)) : word <+: text ∧ word ≠ [] ∧ Unspaced word := by
  cases text with
  | nil => cases h
  | cons c text =>
    unfold pitchedWord? at h
    dsimp only at h
    split at h
    · cases h
    · next hletter =>
      obtain ⟨rfl, -⟩ := Prod.mk.inj (Option.some.inj h)
      have hletter : isNoteLetter c = true := by simpa using hletter
      refine ⟨?_, by simp, fun d hd => ?_⟩
      · cases text with
        | nil => exact List.prefix_rfl
        | cons d text =>
          -- the accidental, if there is one, is the character behind the letter
          by_cases hd : isAccidental d = true
          · simp [hd, List.takeWhile_prefix]
          · simp [hd, List.takeWhile_prefix]
      · rcases List.mem_append.mp hd with hd | hd
        · rcases List.mem_cons.mp hd with rfl | hd
          · exact unspaced_of_kind (by decide) (by decide) hletter
          · have haccidental := List.of_mem_filter hd
            exact unspaced_of_kind (by decide) (by decide) haccidental
        · have hwordChar := List.mem_takeWhile_imp hd
          exact unspaced_of_kind (by decide) (by decide) hwordChar

/-- The word of an entry is read somewhere in the text. -/
theorem exists_suffix_of_mem_entriesFrom {word? : List Char → Option (List Char × List Char)}
    {skip : Nat} {text : List Char} {e : Entry} (h : e ∈ entriesFrom word? skip text) :
    ∃ start rest, start <:+ text ∧ word? start = some (e.word, rest) := by
  induction text generalizing skip with
  | nil => cases skip <;> cases h
  | cons c text ih =>
    have hlater : ∀ {skip}, e ∈ entriesFrom word? skip text →
        ∃ start rest, start <:+ c :: text ∧ word? start = some (e.word, rest) := by
      intro skip h
      obtain ⟨start, rest, hsuffix, hread⟩ := ih h
      exact ⟨start, rest, hsuffix.trans (List.suffix_cons c text), hread⟩
    cases skip with
    | succ skip => exact hlater h
    | zero =>
      unfold entriesFrom at h
      dsimp only at h
      split at h
      · next entry behind hentry =>
        rcases List.mem_cons.mp h with rfl | h
        · unfold entry? at hentry
          split at hentry
          · cases hentry
          · next word rest hread =>
            obtain ⟨⟨argument, behind'⟩, -, heq⟩ := Option.map_eq_some_iff.mp hentry
            obtain ⟨rfl, -⟩ := Prod.mk.inj heq
            exact ⟨c :: text, rest, List.suffix_rfl, hread⟩
        · exact hlater h
      · exact hlater h

theorem infix_of_mem_slotsOf {pattern slot : List Char} (h : slot ∈ slotsOf pattern) :
    slot <:+: pattern := by
  obtain ⟨piece, hpiece, rfl⟩ := List.mem_map.mp h
  exact (Text.infix_trim piece).trans (Text.infix_of_mem_split hpiece)

/-- The word of an entry of a pattern stands in the pattern. -/
theorem EntryAt.word {pattern : List Char} {index : Nat} {before : List Entry} {e : Entry}
    (h : EntryAt pattern index before e) : e.word <:+: pattern ∧ e.word ≠ [] ∧ Unspaced e.word := by
  obtain ⟨slot, after, hslot, hentries⟩ := h
  have he : e ∈ entries pitchedWord? slot := by
    rw [hentries]
    exact List.mem_append_right _ List.mem_cons_self
  obtain ⟨start, rest, hsuffix, hread⟩ := exists_suffix_of_mem_entriesFrom he
  obtain ⟨hbegin, hne, hunspaced⟩ := pitchedWord?_eq_some hread
  refine ⟨?_, hne, hunspaced⟩
  exact hbegin.isInfix.trans
    (hsuffix.isInfix.trans (infix_of_mem_slotsOf (List.mem_of_getElem? hslot)))

theorem Line.infix_of_restOfLine? {text pattern : List Char}
    (h : Text.behindBlanks? restOfLine? text = some pattern) : pattern <:+: text := by
  have hhere : ∀ {text}, restOfLine? text = some pattern → pattern <:+: text := by
    intro text h
    unfold restOfLine? at h
    dsimp only at h
    split at h
    · cases h
    · obtain rfl := Option.some.inj h
      exact (List.takeWhile_prefix _).isInfix
  induction text with
  | nil => exact hhere h
  | cons c text ih =>
    rw [Text.behindBlanks?] at h
    split at h
    · rcases Option.or_eq_some_iff.mp h with h | ⟨-, h⟩
      · exact List.infix_cons (ih h)
      · exact hhere h
    · exact hhere h

theorem Line.infix_of_labelled? {line word pattern : List Char}
    (h : labelled? line = some (word, pattern)) : pattern <:+: line := by
  unfold labelled? at h
  dsimp only at h
  split at h
  · cases h
  · split at h
    · next rest hcolon =>
      obtain ⟨text, hrest, heq⟩ := Option.map_eq_some_iff.mp h
      obtain ⟨-, rfl⟩ := Prod.mk.inj heq
      have hsuffix : ':' :: rest <:+ line := by
        rw [← hcolon]
        exact (List.dropWhile_suffix _).trans (List.drop_suffix _ _)
      exact (infix_of_restOfLine? hrest).trans ((List.suffix_cons _ _).trans hsuffix).isInfix
    · cases h

theorem Line.infix_of_ofText {line word pattern : List Char}
    (h : ofText line = .instrument word pattern) : pattern <:+: line := by
  unfold ofText at h
  split at h
  · cases h
  · next label text hlabelled =>
    dsimp only at h
    split_ifs at h
    cases h
    exact infix_of_labelled? hlabelled

/-- The patterns of a piece of text stand in it. -/
theorem infix_of_mem_linesOf {piece word pattern : List Char}
    (h : .instrument word pattern ∈ linesOf piece) : pattern <:+: piece := by
  obtain ⟨line, hline, htext⟩ := List.mem_map.mp h
  obtain ⟨line', hline', rfl⟩ := List.mem_map.mp (List.mem_filter.mp hline).1
  have hmem : line' ∈ Text.split '\n' (Text.trim piece) := by
    unfold pieceLines at hline'
    split at hline'
    · next header lines hsplit =>
      rw [hsplit]
      exact List.mem_cons_of_mem _ hline'
    · cases hline'
  exact (Line.infix_of_ofText htext).trans ((Text.infix_trim _).trans
    ((Text.infix_of_mem_split hmem).trans (Text.infix_trim _)))

theorem flatten_pieces (text : List Char) : (pieces text).flatten = text := by
  induction text with
  | nil => rfl
  | cons c text ih =>
    rw [pieces]
    split
    · next hnil =>
      rw [hnil] at ih
      rw [← ih]
      rfl
    · next piece others hcons =>
      rw [hcons] at ih
      split
      · simpa using ih
      · simpa using ih

theorem infix_of_mem_sectionPieces {text piece : List Char} (h : piece ∈ sectionPieces text) :
    piece <:+: text := by
  have hwithin := List.infix_of_mem_flatten (List.mem_filter.mp h).1
  rwa [flatten_pieces] at hwithin

/-- Cleaning leaves the words of a text as they are. -/
theorem infix_of_infix_clean {text word : List Char} (hne : word ≠ []) (hword : Unspaced word)
    (h : word <:+: clean text) : word <:+: text := by
  have hbreak : '\n' ∉ word := fun hmem => (hword _ hmem).1 rfl
  obtain ⟨kept, hkept, hwithin⟩ := Text.exists_infix_of_infix_join hne hbreak h
  obtain ⟨line, hline, hclean⟩ := List.mem_filterMap.mp hkept
  refine hwithin.trans (List.IsInfix.trans ?_ (Text.infix_of_mem_split hline))
  have htrimmed := Text.infix_trim line
  unfold cleanLine? at hclean
  dsimp only at hclean
  split_ifs at hclean
  · obtain rfl := Option.some.inj hclean
    exact (Text.infix_trim _).trans ((Text.prefix_before _ _).isInfix.trans htrimmed)
  · obtain rfl := Option.some.inj hclean
    exact htrimmed

/-- **The words of entries stand in the sheet**, as it was before it was repaired and cleaned. -/
theorem infix_of_entryAt {text word pattern piece : List Char}
    (hpiece : piece ∈ sectionPieces (clean (repair text)))
    (hline : .instrument word pattern ∈ linesOf piece) {index : Nat} {before : List Entry}
    {e : Entry} (he : EntryAt pattern index before e) : e.word <:+: text := by
  obtain ⟨hwithin, hne, hunspaced⟩ := he.word
  have hcleaned : e.word <:+: clean (repair text) :=
    hwithin.trans ((infix_of_mem_linesOf hline).trans (infix_of_mem_sectionPieces hpiece))
  have hrepaired := infix_of_infix_clean hne hunspaced hcleaned
  exact (spaced_repair text).infix_of_unspaced hunspaced hrepaired

end LeadSheet.Sheet
