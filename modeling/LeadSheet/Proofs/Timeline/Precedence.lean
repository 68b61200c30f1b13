import LeadSheet.Proofs.Timeline.Balance

/-!
# Which of two events comes first

Where one note ends and another one starts at the same pitch, it matters which of the two events is
played first: an end that comes behind the start cuts the new note. Two events may be equal, so each
one is marked with the number of its span (`marked`); the marks change nothing about the order
(`map_fst_marked`).

The order is that of time, and where times are equal that of the score. So an end at the very moment
of a start comes first only if its span does. A chord that leads into a note of its own track does
not have that luck, since a track lists its notes before its chords.
-/

namespace LeadSheet.Timeline

variable {α : Type} [Scalar α]

/-- The event that starts a span. -/
def Span.opening (x : Span α) : TimedEvent α :=
  ⟨.noteOn, x.start, x.channel, x.pitch, x.velocity, x.track⟩

/-- The event that ends a span. -/
def Span.closing (x : Span α) : TimedEvent α :=
  ⟨.noteOff, x.stop, x.channel, x.pitch, 0, x.track⟩

omit [Scalar α] in
theorem Span.events_eq (x : Span α) : x.events = [x.opening, x.closing] := rfl

/-- The events of numbered spans, each with the number of its span. -/
def withNumbers (numbered : List (Span α × Nat)) : List (TimedEvent α × Nat) :=
  numbered.flatMap fun x => [(x.1.opening, x.2), (x.1.closing, x.2)]

/-- The events of a timeline, each with the number of its span. -/
def marked (v : Vocabulary α) (s : Score α) : List (TimedEvent α × Nat) :=
  Sorting.sort (fun a b => earlier a.1 b.1) (withNumbers (spans v s).zipIdx)

/-! ## Numbers of spans -/

omit [Scalar α] in
theorem map_fst_withNumbers (x : List (Span α)) (first : Nat) :
    (withNumbers (x.zipIdx first)).map Prod.fst = x.flatMap Span.events := by
  induction x generalizing first with
  | nil => rfl
  | cons y rest ih =>
    rw [List.zipIdx_cons, withNumbers, List.flatMap_cons, List.map_append, List.flatMap_cons]
    exact congrArg ([y.opening, y.closing] ++ ·) (ih (first + 1))

/-- Whether a marked event stands before another one in a score. -/
def Before (a b : TimedEvent α × Nat) : Prop :=
  a.2 < b.2 ∨ a.2 = b.2 ∧ a.1.kind = .noteOn ∧ b.1.kind = .noteOff

omit [Scalar α] in
theorem pairwise_withNumbers {numbered : List (Span α × Nat)}
    (h : numbered.Pairwise fun x y => x.2 < y.2) : (withNumbers numbered).Pairwise Before := by
  unfold withNumbers
  refine List.pairwise_flatMap.mpr ⟨fun x _ => ?_, h.imp fun {x y} hxy a ha b hb => ?_⟩
  · exact List.pairwise_pair.mpr (.inr ⟨rfl, rfl, rfl⟩)
  · refine .inl ?_
    simp only [List.mem_cons, List.not_mem_nil, or_false] at ha hb
    rcases ha with rfl | rfl <;> rcases hb with rfl | rfl <;> exact hxy

omit [Scalar α] in
theorem opening_mem_withNumbers {numbered : List (Span α × Nat)} {x : Span α} {i : Nat}
    (h : (x, i) ∈ numbered) : (x.opening, i) ∈ withNumbers numbered :=
  List.mem_flatMap.mpr ⟨(x, i), h, List.mem_cons_self ..⟩

omit [Scalar α] in
theorem closing_mem_withNumbers {numbered : List (Span α × Nat)} {x : Span α} {i : Nat}
    (h : (x, i) ∈ numbered) : (x.closing, i) ∈ withNumbers numbered :=
  List.mem_flatMap.mpr ⟨(x, i), h, List.mem_cons_of_mem _ (List.mem_cons_self ..)⟩

/-! ## In order of time -/

variable {v : Vocabulary Rat} {s : Score Rat}

theorem marked_stable (v : Vocabulary Rat) (s : Score Rat) :
    Sorting.StableSort (fun a : TimedEvent Rat × Nat => a.1.seconds)
      (withNumbers (spans v s).zipIdx) (marked v s) :=
  Sorting.sort_stable fun _ _ _ _ => decide_eq_decide.mpr Iff.rfl

/-- Without the marks, the marked events are those of the timeline. -/
theorem map_fst_marked (v : Vocabulary Rat) (s : Score Rat) :
    (marked v s).map Prod.fst = (ofScore v s).events := by
  have h : Sorting.StableSort TimedEvent.seconds ((withNumbers (spans v s).zipIdx).map Prod.fst)
      ((marked v s).map Prod.fst) := (marked_stable v s).map
  rw [map_fst_withNumbers, ← enumerate_eq] at h
  exact h.unique (ofScore_stable v s)

/-- Whether a marked event stands before another one in a timeline. -/
def Precedes (a b : TimedEvent Rat × Nat) : Prop :=
  a.1.seconds < b.1.seconds ∨ a.1.seconds = b.1.seconds ∧ Before a b

theorem Precedes.asymm {a b : TimedEvent Rat × Nat} (h : Precedes a b) : ¬ Precedes b a := by
  rcases h with h | ⟨htime, h | ⟨hnumber, hon, hoff⟩⟩
  · rintro (h' | ⟨htime', -⟩)
    · exact lt_asymm h h'
    · exact h.ne htime'.symm
  · rintro (h' | ⟨-, h' | ⟨hnumber', -⟩⟩)
    · exact h'.ne htime.symm
    · exact lt_asymm h h'
    · exact h.ne hnumber'.symm
  · rintro (h' | ⟨-, h' | ⟨-, hon', -⟩⟩)
    · exact h'.ne htime.symm
    · exact h'.ne hnumber.symm
    · rw [hoff] at hon'
      cases hon'

/-- Of two events of a timeline the one comes first that precedes the other one. -/
theorem pair_sublist_marked {a b : TimedEvent Rat × Nat} (ha : a ∈ withNumbers (spans v s).zipIdx)
    (hb : b ∈ withNumbers (spans v s).zipIdx) (hne : a ≠ b) :
    [a, b].Sublist (marked v s) ↔ Precedes a b := by
  have hsort := marked_stable v s
  refine Sorting.pair_sublist_iff (hsort.pairwise (pairwise_withNumbers ?_))
    (fun _ _ => Precedes.asymm) (hsort.mem_iff.mpr ha) (hsort.mem_iff.mpr hb) hne
  exact List.pairwise_map.mp (by
    rw [List.zipIdx_map_snd]
    exact List.pairwise_lt_range')

/-- **When a note is over before another one starts.** Number the spans of a score in the order of
the score. The end of one stands before the start of another one if it is earlier, or if it is at
the same time and its span comes first in the score; else the start stands before the end. -/
theorem closing_before_opening {i j : Nat} {x y : Span Rat} (hx : (spans v s)[i]? = some x)
    (hy : (spans v s)[j]? = some y) :
    (marked v s).map Prod.fst = (ofScore v s).events ∧
    ([(x.closing, i), (y.opening, j)].Sublist (marked v s)
      ↔ x.stop < y.start ∨ x.stop = y.start ∧ i < j) ∧
    ([(y.opening, j), (x.closing, i)].Sublist (marked v s)
      ↔ y.start < x.stop ∨ x.stop = y.start ∧ j ≤ i) := by
  have hxmem := closing_mem_withNumbers (List.mem_zipIdx_iff_getElem?.mpr hx)
  have hymem := opening_mem_withNumbers (List.mem_zipIdx_iff_getElem?.mpr hy)
  refine ⟨map_fst_marked v s, ?_, ?_⟩
  · rw [pair_sublist_marked hxmem hymem (by simp [Span.closing, Span.opening])]
    simp [Precedes, Before, Span.closing, Span.opening]
  · rw [pair_sublist_marked hymem hxmem (by simp [Span.closing, Span.opening])]
    simp [Precedes, Before, Span.closing, Span.opening, eq_comm, le_iff_lt_or_eq]

/-- A chord that leads into a note of its own root, which is then struck once more. -/
def leadIn : Score Rat where
  title := "Lead-in"
  tempo := 60
  key := "C"
  timeSignature := "4/4"
  sections :=
    [{ name := "Verse", bars := 1, startBar := 0, key := none, tempo := none
       tracks :=
        [⟨"Piano", "piano", [⟨60, 1, 1, 1⟩, ⟨60, 2, 1, 1⟩], [⟨"C", "", 4, 0, 1, 1⟩], 1, 1 / 2⟩]
       drums := none }]

/-- The note that is struck again is over before; the chord is not. -/
theorem closing_before_opening_leadIn :
    [((⟨"Piano", 0, 60, 127, 1, 2⟩ : Span Rat).closing, 0),
        ((⟨"Piano", 0, 60, 127, 2, 3⟩ : Span Rat).opening, 1)].Sublist
      (marked Vocabulary.standard leadIn) ∧
    [((⟨"Piano", 0, 60, 127, 1, 2⟩ : Span Rat).opening, 0),
        ((⟨"Piano", 0, 60, 127, 0, 1⟩ : Span Rat).closing, 2)].Sublist
      (marked Vocabulary.standard leadIn) := by
  have hfirst : (spans Vocabulary.standard leadIn)[0]? = some ⟨"Piano", 0, 60, 127, 1, 2⟩ := by
    decide +kernel
  have hagain : (spans Vocabulary.standard leadIn)[1]? = some ⟨"Piano", 0, 60, 127, 2, 3⟩ := by
    decide +kernel
  have hchord : (spans Vocabulary.standard leadIn)[2]? = some ⟨"Piano", 0, 60, 127, 0, 1⟩ := by
    decide +kernel
  exact ⟨(closing_before_opening hfirst hagain).2.1.mpr (.inr ⟨rfl, by decide⟩),
    (closing_before_opening hchord hfirst).2.2.mpr (.inr ⟨rfl, by decide⟩)⟩

/-- A note that starts after another one of its pitch, and not before that one is over, may still
be cut by its end. -/
theorem cut_by_lead_in :
    (0 < leadIn.tempo ∧ (∀ t ∈ leadIn.tracks, ∀ n ∈ t.notes, 0 < n.duration) ∧
      ∀ t ∈ leadIn.tracks, ∀ c ∈ t.chords, 0 < c.duration) ∧
    ¬ ∀ (i j : Nat) (x y : Span Rat), (spans Vocabulary.standard leadIn)[i]? = some x →
      (spans Vocabulary.standard leadIn)[j]? = some y →
      x.channel = y.channel → x.pitch = y.pitch → x.start < y.start → x.stop ≤ y.start →
      [(x.closing, i), (y.opening, j)].Sublist (marked Vocabulary.standard leadIn) := by
  refine ⟨by decide +kernel, fun h => ?_⟩
  have hcut := h 2 0 ⟨"Piano", 0, 60, 127, 0, 1⟩ ⟨"Piano", 0, 60, 127, 1, 2⟩ (by decide +kernel)
    (by decide +kernel) rfl rfl (by decide +kernel) (by decide +kernel)
  revert hcut
  decide +kernel

end LeadSheet.Timeline
