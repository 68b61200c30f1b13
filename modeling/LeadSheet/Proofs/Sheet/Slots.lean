import LeadSheet.Proofs.Number.Neutral
import LeadSheet.Proofs.Sheet.Overrun

/-!
# Slots of a pattern do not depend on each other

What a slot gives depends on its text and on the first beat of its bar, and that is four beats for
each slot before it, whatever those hold. So a pattern gives what its slots give when each of them
is a pattern of its own, put off by the bars before it, and it reaches as far as the last slot that
gives anything (`slots_independent`). Inside a slot each entry starts when those before it have
ended.

Both readings add up the times of a slot from zero and in the same order, so that they also agree on
doubles, where sums are rounded (`Proofs.Number.Neutral`).
-/

namespace LeadSheet

variable {α : Type} [Scalar α]

/-! ## Putting off -/

/-- The note, so many beats later. -/
def Note.later (beats : α) (n : Note α) : Note α := { n with start := beats + n.start }

/-- The chord, so many beats later. -/
def Chord.later (beats : α) (c : Chord α) : Chord α := { c with start := beats + c.start }

/-- The hit, so many beats later. -/
def DrumHit.later (beats : α) (hit : DrumHit α) : DrumHit α :=
  { hit with start := beats + hit.start }

namespace Sheet

variable {v : Vocabulary α}

/-- What a melodic entry gives, so many beats later. -/
def Sounding.later (beats : α) : Sounding α → Sounding α
  | .note n => .note (n.later beats)
  | .chord c => .chord (c.later beats)

/-- The note, if it is one. -/
def Sounding.note? : Sounding α → Option (Note α)
  | .note n => some n
  | .chord _ => none

/-- The chord, if it is one. -/
def Sounding.chord? : Sounding α → Option (Chord α)
  | .note _ => none
  | .chord c => some c

/-- How long a note or a chord lasts. -/
def Sounding.duration : Sounding α → α
  | .note n => n.duration
  | .chord c => c.duration

theorem later_soundingOf (beats start : α) (word : List Char) (p : Params α) :
    (soundingOf v word start p).later beats = soundingOf v word (beats + start) p := by
  unfold soundingOf
  split <;> rfl

theorem duration_soundingOf (start : α) (word : List Char) (p : Params α) :
    (soundingOf v word start p).duration = p.duration := by
  unfold soundingOf
  split <;> rfl

theorem note?_later (beats : α) (s : Sounding α) :
    (s.later beats).note? = s.note?.map (.later beats) := by
  cases s <;> rfl

theorem chord?_later (beats : α) (s : Sounding α) :
    (s.later beats).chord? = s.chord?.map (.later beats) := by
  cases s <;> rfl

/-! ## What a slot gives -/

/-- A trimmed slot that is silent has no entries anyway. -/
theorem slotSoundings_eq (bar : α) (slot : List Char) :
    slotSoundings v bar slot = layOut v bar 0 (entries pitchedWord? slot) := by
  unfold slotSoundings
  split
  · next hrest =>
    unfold isRest at hrest
    rw [Bool.or_eq_true, decide_eq_true_eq, decide_eq_true_eq] at hrest
    rcases hrest with rfl | rfl <;> rfl
  · rfl

/-- Each entry of a slot gives one note or chord. -/
theorem forall₂_layOut (bar offset : α) (es : List Entry) :
    List.Forall₂ (fun e s => ∃ start, s = soundingOf v e.word start (Params.ofText v e.argument)) es
      (layOut v bar offset es) := by
  induction es generalizing offset with
  | nil => exact .nil
  | cons e es ih => exact .cons ⟨_, rfl⟩ (ih _)

section

variable [NeutralZero α]

/-- Zero leaves everything alone that is worked out as starts are. -/
theorem starts_neutral (v : Vocabulary α) : Starts v fun x => 0 + x = x where
  decimal := NeutralZero.zero_add_ofDecimal
  add hx _ := NeutralZero.zero_add_add _ hx
  lasting _ hx := NeutralZero.zero_add_add _ hx
  sub_one hx _ := NeutralZero.zero_add_sub _ hx

/-- Entries are laid out alike in every bar. -/
theorem layOut_eq_map (bar : α) {offset : α} (hoffset : 0 + offset = offset) (es : List Entry) :
    layOut v bar offset es = (layOut v 0 offset es).map (.later bar) := by
  induction es generalizing offset with
  | nil => rfl
  | cons e es ih =>
    rw [layOut, layOut, List.map_cons, later_soundingOf, hoffset,
      ih (NeutralZero.zero_add_add _ hoffset)]

/-- An entry starts when those before it have ended. -/
theorem start_layOut {offset : α} (hoffset : 0 + offset = offset) (es : List Entry) {k : Nat}
    {s : Sounding α} (h : (layOut v 0 offset es)[k]? = some s) :
    s.start = (((layOut v 0 offset es).take k).map Sounding.duration).foldl (· + ·) offset := by
  induction es generalizing offset k with
  | nil => cases h
  | cons e es ih =>
    rw [layOut] at h ⊢
    cases k with
    | zero =>
      obtain rfl := Option.some.inj h
      rw [start_soundingOf, hoffset]
      rfl
    | succ k =>
      rw [List.take_succ_cons, List.map_cons, List.foldl_cons, duration_soundingOf]
      exact ih (NeutralZero.zero_add_add _ hoffset) h

theorem slotSoundings_eq_map (bar : α) (slot : List Char) :
    slotSoundings v bar slot = (slotSoundings v 0 slot).map (.later bar) := by
  rw [slotSoundings_eq, slotSoundings_eq, layOut_eq_map bar NeutralZero.zero_add_zero]

theorem filterMap_slotSoundings {β : Type} {pick : Sounding α → Option β} {later : α → β → β}
    (hpick : ∀ beats s, pick (s.later beats) = (pick s).map (later beats)) (bar : α)
    (slot : List Char) :
    (slotSoundings v bar slot).filterMap pick
      = ((slotSoundings v 0 slot).filterMap pick).map (later bar) := by
  rw [slotSoundings_eq_map bar, List.filterMap_map, List.map_filterMap]
  exact List.filterMap_congr fun s _ => hpick bar s

theorem entryHits_eq_map (bar : α) (e : Entry) :
    entryHits bar e = (entryHits 0 e).map (.later bar) := by
  unfold entryHits
  split
  · rfl
  · next beats hbeats =>
    rw [List.map_map]
    refine List.map_congr_left fun offset hoffset => ?_
    have hzero := (beats_ofText? (starts_neutral Vocabulary.standard) hbeats).1 offset hoffset
    rw [Function.comp_apply, DrumHit.later, hzero]

theorem slotHits_eq_map (bar : α) (slot : List Char) :
    slotHits bar slot = (slotHits 0 slot).map (.later bar) := by
  unfold slotHits
  split
  · rfl
  · rw [List.map_flatMap]
    exact List.flatMap_congr fun e _ => entryHits_eq_map bar e

end

/-! ## What all slots give -/

theorem slotsOf_join {slots : List (List Char)} (hne : slots ≠ [])
    (hslots : ∀ slot ∈ slots, '|' ∉ slot) :
    slotsOf (Text.join ['|'] slots) = slots.map Text.trim := by
  rw [slotsOf, Text.split_join hne hslots]

theorem slotsOf_of_not_mem {slot : List Char} (h : '|' ∉ slot) :
    slotsOf slot = [Text.trim slot] := by
  rw [slotsOf, Text.split_of_not_mem h, List.map_singleton]

section

variable {β : Type}

/-- What the trimmed slots of a pattern give, each in its bar. -/
def gathered (give : α → List Char → List β) (pattern : List Char) : List (List β) :=
  (slotsOf pattern).mapIdx fun index slot => give (barStart index) slot

theorem gathered_join (give : α → List Char → List β) {slots : List (List Char)} (hne : slots ≠ [])
    (hslots : ∀ slot ∈ slots, '|' ∉ slot) : gathered give (Text.join ['|'] slots)
      = slots.mapIdx fun index slot => give (barStart index) (Text.trim slot) := by
  rw [gathered, slotsOf_join hne hslots]
  refine List.ext_getElem (by simp) fun index _ _ => ?_
  simp only [List.getElem_mapIdx, List.getElem_map]

theorem gathered_of_not_mem (give : α → List Char → List β) {slot : List Char} (h : '|' ∉ slot) :
    gathered give slot = [give 0 (Text.trim slot)] := by
  rw [gathered, slotsOf_of_not_mem h, List.mapIdx_singleton]
  rfl

/-- A pattern gives what its slots give as patterns of their own, each of them put off. -/
theorem flatten_gathered_join {give : α → List Char → List β} {later : α → β → β}
    (hgive : ∀ bar slot, give bar slot = (give 0 slot).map (later bar)) {slots : List (List Char)}
    (hne : slots ≠ []) (hslots : ∀ slot ∈ slots, '|' ∉ slot) :
    (gathered give (Text.join ['|'] slots)).flatten
      = (slots.mapIdx fun index slot =>
          (gathered give slot).flatten.map (later (barStart index))).flatten := by
  rw [gathered_join give hne hslots]
  congr 1
  refine List.mapIdx_eq_mapIdx_iff.mpr fun index hindex => ?_
  rw [gathered_of_not_mem give (hslots _ (List.getElem_mem hindex)), List.flatten_singleton, hgive]

end

section

variable {β : Type} {pick : Sounding α → Option β} {later : α → β → β}

theorem filterMap_gathered (pick : Sounding α → Option β) (pattern : List Char) :
    (gathered (slotSoundings v) pattern).flatten.filterMap pick
      = (gathered (fun bar slot => (slotSoundings v bar slot).filterMap pick) pattern).flatten := by
  rw [List.filterMap_flatten]
  congr 1
  refine List.ext_getElem (by simp [gathered]) fun index _ _ => ?_
  simp only [gathered, List.getElem_map, List.getElem_mapIdx]

/-- What is picked from the notes and chords of a pattern is picked slot by slot. -/
theorem filterMap_gathered_join [NeutralZero α]
    (hpick : ∀ beats s, pick (s.later beats) = (pick s).map (later beats))
    {slots : List (List Char)} (hne : slots ≠ []) (hslots : ∀ slot ∈ slots, '|' ∉ slot) :
    (gathered (slotSoundings v) (Text.join ['|'] slots)).flatten.filterMap pick
      = (slots.mapIdx fun index slot =>
          ((gathered (slotSoundings v) slot).flatten.filterMap pick).map
            (later (barStart index))).flatten := by
  simp only [filterMap_gathered]
  exact flatten_gathered_join (filterMap_slotSoundings hpick) hne hslots

end

/-! ## How far a pattern reaches -/

section

variable {β γ : Type}

/-- One more than the greatest place of an item with the property, or zero if there is none. -/
structure ReachesTo (p : β → Prop) (items : List β) (used : Nat) : Prop where
  bound : ∀ i x, items[i]? = some x → p x → i < used
  attained : used ≠ 0 → ∃ x, items[used - 1]? = some x ∧ p x

/-- The last slot that is used is not empty. -/
theorem exists_getElem?_lastUsed {slots : List (List γ)} (h : lastUsed slots ≠ 0) :
    ∃ slot, slots[lastUsed slots - 1]? = some slot ∧ slot ≠ [] := by
  induction slots using List.reverseRecOn with
  | nil => exact absurd rfl h
  | append_singleton slots last ih =>
    rw [lastUsed_concat] at h ⊢
    split at h
    · next hempty =>
      obtain ⟨slot, hslot, hne⟩ := ih h
      have hplace := (List.getElem?_eq_some_iff.mp hslot).1
      rw [if_pos hempty]
      exact ⟨slot, (List.getElem?_append_left hplace).trans hslot, hne⟩
    · next hne =>
      rw [if_neg hne, Nat.add_sub_cancel, List.getElem?_concat_length]
      exact ⟨last, rfl, fun hnil => hne (List.isEmpty_iff.mpr hnil)⟩

theorem reachesTo_lastUsed {f : Nat → β → List γ} {p : β → Prop} {items : List β}
    (hp : ∀ x ∈ items, ∀ i, f i x ≠ [] ↔ p x) : ReachesTo p items (lastUsed (items.mapIdx f)) where
  bound i x hx hused := by
    have hslot : (items.mapIdx f)[i]? = some (f i x) := by
      rw [List.getElem?_mapIdx, hx, Option.map_some]
    exact lt_lastUsed hslot ((hp x (List.mem_of_getElem? hx) i).mpr hused)
  attained h := by
    obtain ⟨slot, hslot, hne⟩ := exists_getElem?_lastUsed h
    rw [List.getElem?_mapIdx] at hslot
    obtain ⟨x, hx, rfl⟩ := Option.map_eq_some_iff.mp hslot
    exact ⟨x, hx, (hp x (List.mem_of_getElem? hx) _).mp hne⟩

end

/-! ## Patterns -/

theorem notes_ofText (pattern : List Char) : (PitchedPattern.ofText v pattern).notes
    = (gathered (slotSoundings v) pattern).flatten.filterMap Sounding.note? :=
  List.filterMap_congr fun s _ => by cases s <;> rfl

theorem chords_ofText (pattern : List Char) : (PitchedPattern.ofText v pattern).chords
    = (gathered (slotSoundings v) pattern).flatten.filterMap Sounding.chord? :=
  List.filterMap_congr fun s _ => by cases s <;> rfl

theorem hits_ofText (pattern : List Char) :
    (DrumPattern.ofText (α := α) pattern).hits = (gathered slotHits pattern).flatten := rfl

/-- A slot has an entry if it gives a note or a chord as a pattern of its own. -/
def HasEntry (v : Vocabulary α) (slot : List Char) : Prop :=
  (PitchedPattern.ofText v slot).notes ≠ [] ∨ (PitchedPattern.ofText v slot).chords ≠ []

/-- What a slot gives as a pattern of its own, in the order of its text: for each entry a note or a
chord, which starts at the sum of the durations of those before it. -/
structure InOrder (v : Vocabulary α) (slot : List Char) (sounds : List (Sounding α)) : Prop where
  notes : (PitchedPattern.ofText v slot).notes = sounds.filterMap Sounding.note?
  chords : (PitchedPattern.ofText v slot).chords = sounds.filterMap Sounding.chord?
  entries : List.Forall₂
    (fun e s => ∃ start, s = soundingOf v e.word start (Params.ofText v e.argument))
    (entries pitchedWord? (Text.trim slot)) sounds
  start : ∀ k s, sounds[k]? = some s →
    s.start = ((sounds.take k).map Sounding.duration).foldl (· + ·) 0

section

variable {slot : List Char} (hslot : '|' ∉ slot)

include hslot

theorem soundings_of_not_mem :
    (gathered (slotSoundings v) slot).flatten = slotSoundings v 0 (Text.trim slot) := by
  rw [gathered_of_not_mem _ hslot, List.flatten_singleton]

theorem hasEntry_iff : HasEntry v slot ↔ slotSoundings v 0 (Text.trim slot) ≠ [] := by
  rw [HasEntry, notes_ofText, chords_ofText, soundings_of_not_mem hslot]
  cases slotSoundings v 0 (Text.trim slot) with
  | nil => simp
  | cons s sounds => cases s <;> simp [Sounding.note?, Sounding.chord?]

theorem inOrder_layOut [NeutralZero α] :
    InOrder v slot (layOut v 0 0 (Sheet.entries pitchedWord? (Text.trim slot))) where
  notes := by rw [notes_ofText, soundings_of_not_mem hslot, slotSoundings_eq]
  chords := by rw [chords_ofText, soundings_of_not_mem hslot, slotSoundings_eq]
  entries := forall₂_layOut _ _ _
  start _ _ h := start_layOut NeutralZero.zero_add_zero _ h

end

/-- **Slots are read one by one.** The notes, the chords and the hits of a pattern are those that
its slots have as patterns of their own, each put off to the first beat of its bar, four beats for
each slot before it. The pattern reaches up to the last slot that has an entry, or a hit. And the
entries of a slot follow each other without a gap. -/
theorem slots_independent [NeutralZero α] (v : Vocabulary α) {slots : List (List Char)}
    (hne : slots ≠ []) (hslots : ∀ slot ∈ slots, '|' ∉ slot) :
    let pitched := PitchedPattern.ofText v (Text.join ['|'] slots)
    let drums : DrumPattern α := DrumPattern.ofText (Text.join ['|'] slots)
    pitched.notes = (slots.mapIdx fun i slot =>
      (PitchedPattern.ofText v slot).notes.map (.later (Scalar.ofNat (4 * i)))).flatten ∧
    pitched.chords = (slots.mapIdx fun i slot =>
      (PitchedPattern.ofText v slot).chords.map (.later (Scalar.ofNat (4 * i)))).flatten ∧
    drums.hits = (slots.mapIdx fun i slot =>
      (DrumPattern.ofText slot).hits.map (.later (Scalar.ofNat (4 * i)))).flatten ∧
    ReachesTo (HasEntry v) slots pitched.barsUsed ∧
    ReachesTo (fun slot => (DrumPattern.ofText (α := α) slot).hits ≠ []) slots drums.barsUsed ∧
    ∀ slot ∈ slots, ∃ sounds, InOrder v slot sounds := by
  refine ⟨?_, ?_, ?_, ?_, ?_, fun slot hslot => ⟨_, inOrder_layOut (hslots slot hslot)⟩⟩
  · simp only [notes_ofText]
    exact filterMap_gathered_join note?_later hne hslots
  · simp only [chords_ofText]
    exact filterMap_gathered_join chord?_later hne hslots
  · exact flatten_gathered_join slotHits_eq_map hne hslots
  · have hused := gathered_join (slotSoundings v) hne hslots
    change ReachesTo _ _ (lastUsed (gathered (slotSoundings v) _))
    rw [hused]
    refine reachesTo_lastUsed fun slot hslot i => ?_
    rw [hasEntry_iff (hslots slot hslot), slotSoundings_eq_map, ne_eq, List.map_eq_nil_iff]
  · have hused := gathered_join (slotHits (α := α)) hne hslots
    change ReachesTo _ _ (lastUsed (gathered slotHits _))
    rw [hused]
    refine reachesTo_lastUsed fun slot hslot i => ?_
    rw [hits_ofText, gathered_of_not_mem _ (hslots slot hslot), List.flatten_singleton,
      slotHits_eq_map, ne_eq, List.map_eq_nil_iff]

/-- Slots with a rest among them and a silent one at the end. -/
def restBetween : List (List Char) := ["C4(t) Am(t) D4(h)".toList, " _ ".toList, "E4(q)".toList, []]

/-- Slots of a drum pattern, of which the last one asks for no beat of the bar. -/
def beatsBetween : List (List Char) :=
  ["kick(1,3.5)".toList, [], "kick(2)".toList, "kick(0)".toList]

theorem slots_independent_restBetween :
    let pitched : PitchedPattern Float :=
      .ofText Vocabulary.standard (Text.join ['|'] restBetween)
    let drums : DrumPattern Float := .ofText (Text.join ['|'] beatsBetween)
    (∀ slot ∈ restBetween, '|' ∉ slot) ∧ (∀ slot ∈ beatsBetween, '|' ∉ slot) ∧
    pitched.notes = (restBetween.mapIdx fun i slot =>
      (PitchedPattern.ofText Vocabulary.standard slot).notes.map
        (.later (Scalar.ofNat (4 * i)))).flatten ∧
    pitched.notes.map (·.start) = [0, Scalar.ofDecimal 666 3, 8] ∧
    ReachesTo (HasEntry (Vocabulary.standard : Vocabulary Float)) restBetween 3 ∧
    drums.hits = (beatsBetween.mapIdx fun i slot =>
      (DrumPattern.ofText slot).hits.map (.later (Scalar.ofNat (4 * i)))).flatten ∧
    drums.hits.map (·.start) = [0, Scalar.ofDecimal 25 1, 9] ∧
    ReachesTo (fun slot => (DrumPattern.ofText (α := Float) slot).hits ≠ []) beatsBetween 3 := by
  have hrest : ∀ slot ∈ restBetween, '|' ∉ slot := by decide
  have hbeats : ∀ slot ∈ beatsBetween, '|' ∉ slot := by decide
  obtain ⟨hnotes, -, -, hused, -, -⟩ :=
    slots_independent (Vocabulary.standard : Vocabulary Float) (List.cons_ne_nil _ _) hrest
  obtain ⟨-, -, hhits, -, hstruck, -⟩ :=
    slots_independent (Vocabulary.standard : Vocabulary Float) (List.cons_ne_nil _ _) hbeats
  exact ⟨hrest, hbeats, hnotes, by decide +kernel, hused, hhits, by decide +kernel, hstruck⟩

end Sheet

end LeadSheet
