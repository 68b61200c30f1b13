import LeadSheet.Proofs.Timeline.Spans

/-!
# No note ends before it starts

A timeline is played from its front, and may be left at any place. So at every place the notes that
have ended must be among those that have started, for each track, channel and pitch by itself, and
also where notes overlap or take no time at all.

What has been played at some place is all that lies before some time, and of what lies at that time
a beginning, in the order of the score. `Covered` says that this holds no more ends than starts. It
goes through `++`, so that it is enough to look at one span at a time; and of a span the start comes
first, because it is earlier, or because at one time the order of the score decides.
-/

namespace LeadSheet.Timeline

/-- The notes of a track on a channel at a pitch, which cannot be told apart while they sound. -/
structure Strand where
  track : String
  channel : Nat
  pitch : Rat
  deriving DecidableEq, Repr

/-- How many notes of a strand the events start, or end. -/
def Strand.count (x : Strand) (kind : EventKind) (events : List (TimedEvent Rat)) : Nat :=
  events.countP fun e => e.kind = kind ∧ (⟨e.track, e.channel, e.pitch⟩ : Strand) = x

namespace Strand

variable (x : Strand) (kind : EventKind)

@[simp] theorem count_append (l l' : List (TimedEvent Rat)) :
    x.count kind (l ++ l') = x.count kind l + x.count kind l' :=
  List.countP_append

@[simp] theorem count_nil : x.count kind [] = 0 := rfl

theorem count_perm {l l' : List (TimedEvent Rat)} (h : l.Perm l') :
    x.count kind l = x.count kind l' :=
  h.countP_eq _

/-- A span starts as many notes of a strand as it ends. -/
theorem count_events (y : Span Rat) :
    x.count .noteOff y.events = x.count .noteOn y.events := by
  simp only [count, Span.events, pair, List.countP_cons, List.countP_nil, reduceCtorEq, false_and,
    true_and, decide_false, Bool.false_eq_true, if_false, Nat.add_zero, Nat.zero_add]

/-- Events that hold a beginning of a span: all of it, its start or nothing. -/
theorem count_le_of_prefix {l : List (TimedEvent Rat)} {y : Span Rat} (h : l <+: y.events) :
    x.count .noteOff l ≤ x.count .noteOn l := by
  simp only [Span.events, pair, List.prefix_cons_iff, List.prefix_nil] at h
  rcases h with rfl | ⟨_, rfl, rfl | ⟨_, rfl, rfl⟩⟩
  · exact Nat.le_refl 0
  · simp [count]
  · exact (x.count_events y).le

end Strand

/-- What is played when all before a time and a beginning of what lies at that time was played ends
no more notes of a strand than it starts. -/
def Covered (x : Strand) (time : Rat) (events : List (TimedEvent Rat)) : Prop :=
  ∀ ties, ties <+: events.filter (fun e => decide (e.seconds = time)) →
    x.count .noteOff (events.filter (fun e => decide (e.seconds < time)) ++ ties)
      ≤ x.count .noteOn (events.filter (fun e => decide (e.seconds < time)) ++ ties)

namespace Covered

variable {x : Strand} {time : Rat} {l l' : List (TimedEvent Rat)}

theorem append (h : Covered x time l) (h' : Covered x time l') : Covered x time (l ++ l') := by
  intro ties hties
  rw [List.filter_append] at hties
  rw [List.filter_append]
  -- the beginning ends in the first list, or holds all of its ties
  obtain ⟨rest, hrest⟩ := hties
  rcases List.append_eq_append_iff.mp hrest with ⟨_, hties, _⟩ | ⟨more, rfl, hmore⟩
  · have hfirst := h ties ⟨_, hties.symm⟩
    have hsecond := h' [] List.nil_prefix
    simp only [Strand.count_append, List.append_nil] at hfirst hsecond ⊢
    omega
  · have hfirst := h _ List.prefix_rfl
    have hsecond := h' more ⟨rest, hmore.symm⟩
    simp only [Strand.count_append] at hfirst hsecond ⊢
    omega

theorem flatMap {β : Type} {f : β → List (TimedEvent Rat)} :
    ∀ {items : List β}, (∀ item ∈ items, Covered x time (f item)) →
      Covered x time (items.flatMap f)
  | [], _ => by
      intro ties hties
      rw [List.prefix_nil.mp hties]
      exact Nat.le_refl 0
  | item :: items, h => by
      rw [List.flatMap_cons]
      exact (h item (List.mem_cons_self ..)).append
        (flatMap fun other hother => h other (List.mem_cons_of_mem item hother))

/-- A span whose end does not lie before its start is covered at any time. -/
theorem of_span {y : Span Rat} (h : y.start ≤ y.stop) : Covered x time y.events := by
  intro ties hties
  have hplayed : y.events.filter (fun e => decide (e.seconds < time))
      ++ y.events.filter (fun e => decide (e.seconds = time)) <+: y.events := by
    simp only [Span.events, pair, List.filter_cons, List.filter_nil, decide_eq_true_eq]
    rcases lt_trichotomy y.stop time with hstop | hstop | hstop
    · simp [hstop, hstop.ne, h.trans_lt hstop, (h.trans_lt hstop).ne]
    · -- a span that takes no time has both events at one time, in their order
      rcases (h.trans_eq hstop).lt_or_eq with hstart | hstart
      · simp [hstop, hstart, hstart.ne]
      · simp [hstop, hstart]
    · rcases lt_trichotomy y.start time with hstart | hstart | hstart
      · simp [hstart, hstart.ne, hstop.not_gt, hstop.ne']
      · simp [hstart, hstop.not_gt, hstop.ne']
      · simp [hstart.not_gt, hstart.ne', hstop.not_gt, hstop.ne']
  exact x.count_le_of_prefix (((List.prefix_append_right_inj _).mpr hties).trans hplayed)

end Covered

/-! ## Spans of a score -/

theorem secondsOf_nonneg {tempo beats : Rat} (htempo : 0 < tempo) (hbeats : 0 ≤ beats) :
    0 ≤ secondsOf tempo beats := by
  unfold secondsOf
  rw [Scalar.numeral_rat]
  positivity

theorem start_le_stop_spanOf {tempo duration : Rat} (htempo : 0 < tempo) (hduration : 0 ≤ duration)
    (sectionStart : Rat) (track : String) (channel : Nat) (pitch velocity start : Rat) :
    (spanOf tempo sectionStart track channel pitch velocity start duration).start
      ≤ (spanOf tempo sectionStart track channel pitch velocity start duration).stop :=
  le_add_of_nonneg_right (secondsOf_nonneg htempo hduration)

theorem start_le_stop_hitSpan (v : Vocabulary Rat) (tempo sectionStart : Rat) (h : DrumHit Rat) :
    (hitSpan v tempo sectionStart h).start ≤ (hitSpan v tempo sectionStart h).stop := by
  refine le_add_of_nonneg_right ?_
  rw [drumHitSeconds, Scalar.ofDecimal_rat]
  norm_num

end Timeline

/-- No note and no chord of the score lasts less than no time. -/
structure Score.Lasting (s : Score Rat) : Prop where
  notes : ∀ t ∈ s.tracks, ∀ n ∈ t.notes, 0 ≤ n.duration
  chords : ∀ t ∈ s.tracks, ∀ c ∈ t.chords, 0 ≤ c.duration

namespace Timeline

variable {s : Score Rat}

theorem start_le_stop (v : Vocabulary Rat) (htempo : 0 < s.tempo) (hs : s.Lasting) {y : Span Rat}
    (hy : y ∈ spans v s) : y.start ≤ y.stop := by
  obtain ⟨part, hpart, hy⟩ := List.mem_flatMap.mp hy
  rcases List.mem_append.mp hy with hy | hy
  · obtain ⟨t, ht, hy⟩ := List.mem_flatMap.mp hy
    have htrack : t ∈ s.tracks := List.mem_flatMap.mpr ⟨part, hpart, ht⟩
    rcases List.mem_append.mp hy with hy | hy
    · obtain ⟨n, hn, rfl⟩ := List.mem_map.mp hy
      exact start_le_stop_spanOf htempo (hs.notes t htrack n hn) ..
    · obtain ⟨c, hc, hy⟩ := List.mem_flatMap.mp hy
      obtain ⟨pitch, _, rfl⟩ := List.mem_map.mp hy
      exact start_le_stop_spanOf htempo (hs.chords t htrack c hc) ..
  · cases hdrums : part.drums with
    | none =>
      rw [hdrums] at hy
      cases hy
    | some drums =>
      rw [hdrums] at hy
      obtain ⟨h, _, rfl⟩ := List.mem_map.mp hy
      exact start_le_stop_hitSpan ..

theorem covered_enumerate (v : Vocabulary Rat) (htempo : 0 < s.tempo) (hs : s.Lasting) (x : Strand)
    (time : Rat) : Covered x time (enumerate v s) := by
  rw [enumerate_eq]
  exact Covered.flatMap fun _ hy => Covered.of_span (start_le_stop v htempo hs hy)

/-- **At every place of a timeline no more notes of a strand have ended than have started.** -/
theorem count_noteOff_le (v : Vocabulary Rat) (htempo : 0 < s.tempo) (hs : s.Lasting) (x : Strand)
    {played : List (TimedEvent Rat)} (hplayed : played <+: (ofScore v s).events) :
    x.count .noteOff played ≤ x.count .noteOn played := by
  by_cases hne : played = []
  · rw [hne]
    exact Nat.le_refl 0
  · obtain ⟨time, ties, hties, hperm⟩ := (ofScore_stable v s).exists_perm_of_begun hplayed hne
    rw [x.count_perm _ hperm, x.count_perm _ hperm]
    exact covered_enumerate v htempo hs x time ties hties

theorem count_noteOff_eq (v : Vocabulary Rat) (s : Score Rat) (x : Strand) :
    x.count .noteOff (ofScore v s).events = x.count .noteOn (ofScore v s).events := by
  have hperm := (ofScore_stable v s).perm.symm
  rw [x.count_perm _ hperm, x.count_perm _ hperm, enumerate_eq]
  induction spans v s with
  | nil => rfl
  | cons y rest ih => rw [List.flatMap_cons, x.count_append, x.count_append, ih, x.count_events]

/-- **The events of a timeline.** They are those of the spans of the score, in order of time, and
those of one time are in the order of the score. So wherever a timeline is left, no more notes of a
track, channel and pitch have ended than have started, and at its end as many. -/
theorem events_in_order {v : Vocabulary Rat} {s : Score Rat} (htempo : 0 < s.tempo)
    (hs : s.Lasting) :
    ((ofScore v s).events.Perm ((spans v s).flatMap Span.events) ∧
      (ofScore v s).events.Pairwise (fun a b => a.seconds ≤ b.seconds) ∧
      ∀ time, (ofScore v s).events.filter (fun e => decide (e.seconds = time))
        = ((spans v s).flatMap Span.events).filter fun e => decide (e.seconds = time)) ∧
    ∀ x : Strand,
      (∀ played, played <+: (ofScore v s).events →
        x.count .noteOff played ≤ x.count .noteOn played) ∧
      x.count .noteOff (ofScore v s).events = x.count .noteOn (ofScore v s).events := by
  have hsort := ofScore_stable v s
  rw [enumerate_eq] at hsort
  refine ⟨⟨hsort.perm.symm, hsort.rising, fun time => (hsort.ties time).symm⟩, fun x => ⟨?_, ?_⟩⟩
  · exact fun played hplayed => count_noteOff_le v htempo hs x hplayed
  · exact count_noteOff_eq v s x

/-- A note that takes no time at the end of one of its own pitch, a chord over both of them, and a
section that starts before the song. -/
def overlapping : Score Rat where
  title := "Overlap"
  tempo := 90
  key := "C"
  timeSignature := "4/4"
  sections :=
    [{ name := "Verse", bars := 1, startBar := 0, key := none, tempo := none
       tracks :=
        [⟨"Lead", "piano", [⟨69, 0, 1, 1⟩, ⟨69, 1, 0, 1⟩], [⟨"A", "m", 4, 1 / 2, 1, 1 / 2⟩], 1,
          1 / 2⟩]
       drums := some ⟨"Drums", [⟨"kick", 0, 1⟩], 1⟩ },
      { name := "Pickup", bars := 1, startBar := -1, key := none, tempo := none
        tracks := [⟨"Lead", "piano", [⟨69, 3, 2, 1⟩], [], 1, 1 / 2⟩], drums := none }]

theorem events_in_order_overlapping :
    (ofScore Vocabulary.standard overlapping).events.Pairwise
      (fun a b => a.seconds ≤ b.seconds) ∧
    (∀ played, played <+: (ofScore Vocabulary.standard overlapping).events →
      Strand.count ⟨"Lead", 0, 69⟩ .noteOff played
        ≤ Strand.count ⟨"Lead", 0, 69⟩ .noteOn played) := by
  have h := events_in_order (v := Vocabulary.standard) (s := overlapping) (by decide +kernel)
    ⟨by decide +kernel, by decide +kernel⟩
  exact ⟨h.1.2.1, (h.2 ⟨"Lead", 0, 69⟩).1⟩

end LeadSheet.Timeline
