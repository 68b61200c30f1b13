import LeadSheet.Proofs.Midi.Opened
import LeadSheet.Proofs.Midi.Total

/-!
# Notes that hang

Every note of a file has a message that starts it and one that ends it, each at a tick that is
rounded by itself, and at one tick ends go before starts. So a note of which both ticks are the same
is ended before it is started, and then sounds on. A note lasts a tenth of a beat at least, which
keeps its ticks apart at ten ticks a beat or more (`Stroke.lasts`), but not at any fewer
(`exists_not_lasts`).

A key may be struck again while it sounds, so that what is shown is a matter of counting. The
messages of a track that have been played at some place are those below some slot, a tick and a rank
(`Sorting.StableSort.exists_perm_of_begun`). `Matched` says of a slot that no more notes of a key
have ended up to it than have started below it. It goes through `++`, and holds of a note that
lasts.
-/

namespace LeadSheet.Midi

/-! ## What is played -/

section

variable {α : Type} {key : UInt8} {l l' : List (Cue α)}

/-- The key of a message of three bytes of a kind. -/
def Cue.key? (kind : Nat) (c : Cue α) : Option UInt8 :=
  match c.bytes with
  | [status, key, _] => if status.toNat / 16 = kind then some key else none
  | _ => none

/-- How many messages start a note of a key. -/
def startCount (key : UInt8) (cues : List (Cue α)) : Nat := cues.countP (·.key? 9 = some key)

/-- How many messages end a note of a key. -/
def endCount (key : UInt8) (cues : List (Cue α)) : Nat := cues.countP (·.key? 8 = some key)

@[simp] theorem startCount_append :
    startCount key (l ++ l') = startCount key l + startCount key l' :=
  List.countP_append

@[simp] theorem endCount_append : endCount key (l ++ l') = endCount key l + endCount key l' :=
  List.countP_append

theorem startCount_perm (h : l.Perm l') : startCount key l = startCount key l' := h.countP_eq _

theorem endCount_perm (h : l.Perm l') : endCount key l = endCount key l' := h.countP_eq _

theorem endCount_le_of_sublist (h : l.Sublist l') : endCount key l ≤ endCount key l' := h.countP_le

/-- Messages that neither start nor end a note. -/
def Silent (cues : List (Cue α)) : Prop := ∀ c ∈ cues, c.key? 9 = none ∧ c.key? 8 = none

theorem Silent.startCount_eq (h : Silent l) : startCount key l = 0 := by
  refine List.countP_eq_zero.mpr fun c hc => ?_
  rw [(h c hc).1]
  exact Bool.false_ne_true

theorem Silent.endCount_eq (h : Silent l) : endCount key l = 0 := by
  refine List.countP_eq_zero.mpr fun c hc => ?_
  rw [(h c hc).2]
  exact Bool.false_ne_true

end

/-! ## Strokes -/

/-- A key that is struck at a beat of the song, for so many beats. -/
structure Stroke (α : Type) where
  pitch : α
  start : α
  duration : α
  velocity : α
  deriving DecidableEq, Repr

section

variable {α : Type} [Scalar α]

namespace Stroke

/-- The message that starts a stroke, and the one that ends it. -/
def cues (ppq : α) (channel : Nat) (n : Stroke α) : List (Cue α) :=
  noteCues ppq channel n.pitch n.start n.duration n.velocity

/-- The key of a stroke, as it is written. -/
def key (n : Stroke α) : UInt8 := dataByte (Scalar.truncate (clampPitch n.pitch))

/-- The tick at which a stroke starts. -/
def startTick (ppq : α) (n : Stroke α) : α := ticksOf ppq n.start

/-- The tick at which a stroke ends. -/
def stopTick (ppq : α) (n : Stroke α) : α :=
  ticksOf ppq (n.start + Scalar.max shortestNote n.duration)

/-- A stroke ends at a later tick than it starts. -/
def Lasts (ppq : α) (n : Stroke α) : Prop := n.startTick ppq < n.stopTick ppq

end Stroke

/-- The strokes of a track of a section: its notes, and then its chords pitch by pitch. -/
def trackStrokes (v : Vocabulary α) (sectionStart : α) (t : Track α) : List (Stroke α) :=
  (t.notes.map fun n => ⟨n.pitch, sectionStart + n.start, n.duration, n.velocity⟩)
    ++ t.chords.flatMap fun c => (c.pitches v).map fun pitch =>
      ⟨pitch, sectionStart + c.start, c.duration, c.velocity⟩

/-- The strokes of the tracks of a name. -/
def melodicStrokes (v : Vocabulary α) (s : Score α) (name : String) : List (Stroke α) :=
  s.sections.flatMap fun part => (tracksNamed name part).flatMap (trackStrokes v part.startBeat)

/-- The strokes of the drums. -/
def drumStrokes (v : Vocabulary α) (s : Score α) : List (Stroke α) :=
  (drumParts s).flatMap fun (part, drums) => drums.hits.map fun h =>
    ⟨v.drumKey h.drum, part.startBeat + h.start, drumHitBeats, h.velocity⟩

/-- The strokes of each sound track of a score. -/
def strokes (v : Vocabulary α) (s : Score α) : List (List (Stroke α)) :=
  (sortedNames s).map (melodicStrokes v s) ++ if s.hasDrumHits then [drumStrokes v s] else []

/-! ## What tracks are written from -/

theorem key?_setupCue_controlChange {kind : Nat} (hkind : kind ≠ 11)
    (channel controller value : Int) :
    (setupCue (controlChange channel controller value) : Cue α).key? kind = none := by
  have hstatus : (status 0xB0 channel).toNat / 16 = 11 := status_kind (by decide) (by decide) _
  show (if (status 0xB0 channel).toNat / 16 = kind then some (dataByte controller) else none) = none
  rw [if_neg (by omega)]

theorem silent_mixerCues (channel : Nat) (volume pan : α) :
    Silent (mixerCues channel volume pan) := by
  intro c hc
  simp only [mixerCues, List.mem_cons, List.not_mem_nil, or_false] at hc
  rcases hc with rfl | rfl <;>
    exact ⟨key?_setupCue_controlChange (by decide) .., key?_setupCue_controlChange (by decide) ..⟩

/-- A track is written from strokes, and else from messages that strike nothing. -/
def CueTrack.Strikes (ppq : α) (channel : Nat) (track : CueTrack α) (strokes : List (Stroke α)) :
    Prop :=
  ∃ setup, Silent setup ∧ track.cues = strokes.flatMap (Stroke.cues ppq channel) ++ setup

theorem flatMap_cues_trackStrokes (v : Vocabulary α) (ppq sectionStart : α) (channel : Nat)
    (t : Track α) : (trackStrokes v sectionStart t).flatMap (Stroke.cues ppq channel)
      = trackCues v ppq channel sectionStart t := by
  unfold trackStrokes trackCues
  rw [List.flatMap_append, List.flatMap_map, List.flatMap_assoc]
  congr 1
  refine List.flatMap_congr fun c _ => ?_
  rw [List.flatMap_map]
  rfl

theorem instrumentTrack_strikes (v : Vocabulary α) (options : ExportOptions α) (s : Score α)
    (channel : Nat) (name : String) : (instrumentTrack v options s channel name).1.Strikes
      options.ppq channel (melodicStrokes v s name) := by
  refine ⟨_, ?_, congrArg (· ++ _) ?_⟩
  · refine List.forall_mem_cons.mpr ⟨⟨rfl, rfl⟩, ?_⟩
    split
    · split
      · apply silent_mixerCues
      · nofun
    · nofun
  · unfold melodicStrokes
    rw [List.flatMap_assoc]
    refine List.flatMap_congr fun part _ => ?_
    rw [List.flatMap_assoc]
    exact List.flatMap_congr fun t _ => (flatMap_cues_trackStrokes ..).symm

theorem drumTrack_strikes (v : Vocabulary α) (options : ExportOptions α) (s : Score α) :
    (drumTrack v options s).1.Strikes options.ppq drumChannel (drumStrokes v s) := by
  refine ⟨_, ?_, congrArg (· ++ _) ?_⟩
  · split
    · split
      · apply silent_mixerCues
      · nofun
    · nofun
  · unfold drumStrokes
    rw [List.flatMap_assoc]
    refine List.flatMap_congr fun part _ => ?_
    rw [List.flatMap_map]
    rfl

/-- **Each sound track is written from the strokes of its name.** -/
theorem soundTracks_strike (v : Vocabulary α) (options : ExportOptions α) (s : Score α) :
    List.Forall₂ (fun sound strokes => sound.1.Strikes options.ppq sound.2.channel strokes)
      (soundTracks v options s) (strokes v s) := by
  unfold soundTracks strokes
  refine List.rel_append ?_ ?_
  · rw [List.forall₂_iff_get]
    refine ⟨by simp, fun i h h' => ?_⟩
    simp only [List.get_eq_getElem, List.getElem_mapIdx, List.getElem_map]
    exact instrumentTrack_strikes ..
  · split
    · exact .cons (drumTrack_strikes v options s) .nil
    · exact .nil

end

/-! ## Strokes that last -/

section

variable {ppq : Rat}

theorem ticksOf_rat (ppq beats : Rat) : ticksOf ppq beats = ⌊beats * ppq + 1 / 2⌋ :=
  Scalar.round_rat _

/-- Positions a tick or more apart have different ticks. -/
theorem ticksOf_lt {x y : Rat} (h : 1 ≤ (y - x) * ppq) : ticksOf ppq x < ticksOf ppq y := by
  rw [ticksOf_rat, ticksOf_rat, Int.cast_lt, ← Int.add_one_le_iff, ← Int.floor_add_one]
  exact Int.floor_le_floor (by linarith)

theorem shortestNote_rat : (shortestNote : Rat) = 1 / 10 := by
  rw [shortestNote, Scalar.ofDecimal_rat]
  norm_num

theorem drumHitBeats_rat : (drumHitBeats : Rat) = 1 / 4 := by
  rw [drumHitBeats, Scalar.ofDecimal_rat]
  norm_num

/-- A stroke whose beats hold a tick lasts. -/
theorem Stroke.lasts_of_le {n : Stroke Rat} (h : 1 ≤ max (1 / 10) n.duration * ppq) :
    n.Lasts ppq := by
  rw [Lasts, startTick, stopTick, Scalar.max_rat, shortestNote_rat]
  refine ticksOf_lt ?_
  rwa [add_sub_cancel_left]

/-- At ten ticks a beat all strokes last. -/
theorem Stroke.lasts (hppq : 10 ≤ ppq) (n : Stroke Rat) : n.Lasts ppq := by
  refine lasts_of_le ?_
  have := le_max_left (1 / 10) n.duration
  nlinarith

/-- At fewer ticks a beat not all strokes last: a short one that starts half a tick behind a tick
does not reach the next one. -/
theorem exists_not_lasts (hpos : 0 < ppq) (hppq : ppq < 10) :
    ∃ n : Stroke Rat, 0 ≤ n.start ∧ 0 < n.duration ∧ ¬n.Lasts ppq := by
  refine ⟨⟨60, 1 / 2 / ppq, 1 / 10, 1⟩, by positivity, by norm_num, fun hlasts => ?_⟩
  rw [Stroke.Lasts, Stroke.startTick, Stroke.stopTick, Scalar.max_rat, shortestNote_rat, max_self,
    ticksOf_rat, ticksOf_rat, Int.cast_lt, add_mul, div_mul_cancel₀ _ hpos.ne'] at hlasts
  have hstart : ⌊(1 / 2 + 1 / 2 : Rat)⌋ = 1 := by norm_num
  have hstop : ⌊1 / 2 + 1 / 10 * ppq + 1 / 2⌋ < 2 := by
    rw [Int.floor_lt]
    norm_num
    linarith
  omega

/-- Four ticks a beat are enough for drums. -/
theorem lasts_of_mem_drumStrokes (v : Vocabulary Rat) (s : Score Rat) (hppq : 4 ≤ ppq) :
    ∀ n ∈ drumStrokes v s, n.Lasts ppq := by
  intro n hn
  obtain ⟨part, _, hn⟩ := List.mem_flatMap.mp hn
  obtain ⟨h, _, rfl⟩ := List.mem_map.mp hn
  refine Stroke.lasts_of_le ?_
  have := le_max_right (1 / 10) (drumHitBeats : Rat)
  rw [drumHitBeats_rat] at this ⊢
  nlinarith

/-! ## Counting -/

/-- The place of a message in its track. -/
def Cue.slot (c : Cue Rat) : Rat ×ₗ Nat := toLex (c.tick, c.rank.place)

/-- No more notes of a key end up to a slot than start below it. -/
def Matched (key : UInt8) (slot : Rat ×ₗ Nat) (cues : List (Cue Rat)) : Prop :=
  endCount key (cues.filter fun c => decide (c.slot < slot))
      + endCount key (cues.filter fun c => decide (c.slot = slot))
    ≤ startCount key (cues.filter fun c => decide (c.slot < slot))

variable {key : UInt8} {slot : Rat ×ₗ Nat} {channel : Nat}

theorem Matched.append {l l' : List (Cue Rat)} (h : Matched key slot l) (h' : Matched key slot l') :
    Matched key slot (l ++ l') := by
  unfold Matched at *
  simp only [List.filter_append, startCount_append, endCount_append]
  omega

theorem Matched.of_endCount_eq {l : List (Cue Rat)} (h : endCount key l = 0) :
    Matched key slot l := by
  have hfilter : ∀ p : Cue Rat → Bool, endCount key (l.filter p) = 0 := fun p =>
    Nat.le_zero.mp (h ▸ endCount_le_of_sublist List.filter_sublist)
  unfold Matched
  rw [hfilter, hfilter]
  exact Nat.zero_le _

theorem Matched.flatMap {β : Type} {f : β → List (Cue Rat)} :
    ∀ {items : List β}, (∀ item ∈ items, Matched key slot (f item)) →
      Matched key slot (items.flatMap f)
  | [], _ => Nat.le_refl 0
  | item :: items, h => by
      rw [List.flatMap_cons]
      exact (h item List.mem_cons_self).append
        (flatMap fun other hother => h other (List.mem_cons_of_mem item hother))

/-- The two messages of a stroke: the first one starts a note of its key, the second one ends it. -/
theorem Stroke.cues_eq (ppq : Rat) (channel : Nat) (n : Stroke Rat) : ∃ on off : Cue Rat,
    n.cues ppq channel = [on, off] ∧
    on.slot = toLex (n.startTick ppq, 2) ∧ off.slot = toLex (n.stopTick ppq, 1) ∧
    on.key? 9 = some n.key ∧ on.key? 8 = none ∧ off.key? 9 = none ∧ off.key? 8 = some n.key := by
  have hon : (status 0x90 channel).toNat / 16 = 9 := status_kind (by decide) (by decide) _
  have hoff : (status 0x80 channel).toNat / 16 = 8 := status_kind (by decide) (by decide) _
  refine ⟨_, _, rfl, rfl, rfl, ?_, ?_, ?_, ?_⟩ <;> simp [Cue.key?, noteOn, noteOff, hon, hoff, key]

/-- A stroke ends as many notes as it starts. -/
theorem Stroke.endCount_cues (n : Stroke Rat) :
    endCount key (n.cues ppq channel) = startCount key (n.cues ppq channel) := by
  obtain ⟨on, off, hcues, -, -, hon, hon', hoff, hoff'⟩ :=
    n.cues_eq ppq channel
  rw [hcues]
  simp [endCount, startCount, hon, hon', hoff, hoff', List.countP_cons]

theorem endCount_flatMap_cues : ∀ strokes : List (Stroke Rat),
    endCount key (strokes.flatMap (Stroke.cues ppq channel))
      = startCount key (strokes.flatMap (Stroke.cues ppq channel))
  | [] => rfl
  | n :: rest => by
      rw [List.flatMap_cons, endCount_append, startCount_append, n.endCount_cues,
        endCount_flatMap_cues rest]

/-- A stroke of another key, or one that lasts, is no matter at any slot. -/
theorem Matched.of_stroke {n : Stroke Rat} (h : n.key = key → n.Lasts ppq) :
    Matched key slot (n.cues ppq channel) := by
  obtain ⟨on, off, hcues, hstart, hstop, hon, hon', hoff, hoff'⟩ :=
    n.cues_eq ppq channel
  rw [hcues]
  by_cases hkey : n.key = key
  · have hlt : on.slot < off.slot := by
      rw [hstart, hstop, Prod.Lex.toLex_lt_toLex]
      exact .inl (h hkey)
    subst hkey
    unfold Matched
    -- where the end has been played, or is at the slot itself, the start has been played
    rcases lt_trichotomy off.slot slot with hbelow | rfl | habove
    · have hstarted := hlt.trans hbelow
      simp [startCount, endCount, hbelow, hbelow.ne, hstarted, hstarted.ne, hon, hon', hoff, hoff']
    · simp [startCount, endCount, hlt, hlt.ne, hon, hon', hoff']
    · simp [endCount, List.filter_cons, habove.not_gt, habove.ne', hon', apply_ite]
  · refine .of_endCount_eq ?_
    simp [endCount, hon', hoff', hkey]

/-- **No note of a key hangs if all strokes of the key last**: at every place of a track no more
notes of the key have ended than have started. -/
theorem CueTrack.Strikes.endCount_le {track : CueTrack Rat} {strokes : List (Stroke Rat)}
    (h : track.Strikes ppq channel strokes) (hlasts : ∀ n ∈ strokes, n.key = key → n.Lasts ppq)
    {played : List (Cue Rat)} (hplayed : played <+: Sorting.sort Cue.goesBefore track.cues) :
    endCount key played ≤ startCount key played := by
  by_cases hne : played = []
  · rw [hne]
    exact Nat.le_refl 0
  · have hsort := Sorting.sort_stable (goesBefore_comparesBy_tick track.cues)
    obtain ⟨slot, ties, hties, hperm⟩ := hsort.exists_perm_of_begun hplayed hne
    obtain ⟨setup, hsetup, hcues⟩ := h
    have hmatched : Matched key slot track.cues := by
      rw [hcues]
      exact (Matched.flatMap fun n hn => .of_stroke (hlasts n hn)).append
        (.of_endCount_eq hsetup.endCount_eq)
    have hends : endCount key ties ≤ _ := endCount_le_of_sublist hties.sublist
    rw [endCount_perm hperm, startCount_perm hperm, endCount_append, startCount_append]
    exact (Nat.add_le_add_left hends _).trans (hmatched.trans (Nat.le_add_right ..))

/-- A track ends as many notes of a key as it starts. -/
theorem CueTrack.Strikes.endCount_eq {track : CueTrack Rat} {strokes : List (Stroke Rat)}
    (h : track.Strikes ppq channel strokes) :
    endCount key (Sorting.sort Cue.goesBefore track.cues)
      = startCount key (Sorting.sort Cue.goesBefore track.cues) := by
  have hperm := (Sorting.sort_stable (goesBefore_comparesBy_tick track.cues)).perm.symm
  obtain ⟨setup, hsetup, hcues⟩ := h
  rw [endCount_perm hperm, startCount_perm hperm, hcues, endCount_append, startCount_append,
    hsetup.endCount_eq, hsetup.startCount_eq, endCount_flatMap_cues]

end

/-! ## No note hangs -/

/-- **Which notes hang.** A score with a section is written. Each of its tracks is written from the
strokes of its name: notes, pitches of chords, or drum hits. Of each key a track ends as many notes
as it starts; and if all strokes of the key end at a later tick than they start, no more notes of
the key have ended than have started at any place of the track. At ten ticks a beat or more all
strokes do, and drum hits do at four or more; at fewer than ten ticks a beat there are strokes that
do not. -/
theorem no_note_hangs (v : Vocabulary Rat) (options : ExportOptions Rat) {s : Score Rat}
    (hsections : s.sections ≠ []) (hpos : 0 < options.ppq) :
    (∃ out, exportScore v options s = .ok out ∧
      out.tracks = (soundTracks v options s).map Prod.snd) ∧
    List.Forall₂ (fun sound strokes => sound.1.Strikes options.ppq sound.2.channel strokes ∧
        ∀ key, endCount key (Sorting.sort Cue.goesBefore sound.1.cues)
            = startCount key (Sorting.sort Cue.goesBefore sound.1.cues) ∧
          ((∀ n ∈ strokes, n.key = key → n.Lasts options.ppq) →
            ∀ played, played <+: Sorting.sort Cue.goesBefore sound.1.cues →
              endCount key played ≤ startCount key played))
      (soundTracks v options s) (strokes v s) ∧
    (10 ≤ options.ppq → ∀ n : Stroke Rat, n.Lasts options.ppq) ∧
    (4 ≤ options.ppq → ∀ n ∈ drumStrokes v s, n.Lasts options.ppq) ∧
    (options.ppq < 10 → ∃ n : Stroke Rat, 0 ≤ n.start ∧ 0 < n.duration ∧ ¬n.Lasts options.ppq) := by
  refine ⟨exists_exportScore v options hsections, ?_, Stroke.lasts, lasts_of_mem_drumStrokes v s,
    exists_not_lasts hpos⟩
  refine (soundTracks_strike v options s).imp fun sound strokes h =>
    ⟨h, fun key => ⟨h.endCount_eq, ?_⟩⟩
  intro hlasts played hplayed
  exact h.endCount_le hlasts hplayed

/-- A key that is struck three times without a gap, and a drum on top of it. -/
def trill : Score Rat where
  title := "Trill"
  tempo := 120
  key := "C"
  timeSignature := "4/4"
  sections :=
    [{ name := "Verse", bars := 1, startBar := 0, key := none, tempo := none
       tracks :=
        [⟨"Lead", "piano", [⟨60, 0, 1 / 10, 1⟩, ⟨60, 1 / 10, 1 / 20, 1⟩, ⟨60, 1 / 5, 1, 1⟩],
          [⟨"C", "", 4, 1, 1, 1⟩], 1, 1 / 2⟩]
       drums := some ⟨"Drums", [⟨"kick", 0, 1⟩], 1⟩ }]

theorem no_note_hangs_trill :
    (∃ out, exportScore Vocabulary.standard ⟨10, false, false⟩ trill = .ok out) ∧
    ∀ sound ∈ soundTracks Vocabulary.standard ⟨10, false, false⟩ trill, ∀ key played,
      played <+: Sorting.sort Cue.goesBefore sound.1.cues →
        endCount key played ≤ startCount key played := by
  obtain ⟨⟨out, hout, -⟩, htracks, hlasts, -⟩ :=
    no_note_hangs Vocabulary.standard ⟨10, false, false⟩ (by decide : trill.sections ≠ [])
      (by decide +kernel)
  refine ⟨⟨out, hout⟩, forall_of_forall₂ (fun _ sound h => ?_) htracks.flip⟩
  intro key played hplayed
  exact (h.2 key).2 (fun n _ _ => hlasts (by decide +kernel) n) played hplayed

/-- A score with one note, of a tenth of a beat. -/
def shortNote : Score Rat where
  title := "Short"
  tempo := 120
  key := "C"
  timeSignature := "4/4"
  sections :=
    [{ name := "Verse", bars := 1, startBar := 0, key := none, tempo := none
       tracks := [⟨"Lead", "piano", [⟨60, 0, 1 / 10, 1⟩], [], 1, 1 / 2⟩]
       drums := none }]

/-- Four ticks a beat, and nothing but notes. -/
def fewTicks : ExportOptions Rat := ⟨4, false, false⟩

/-- **A short note hangs** at four ticks a beat: in the file it is ended before it is started. -/
theorem shortNote_hangs :
    shortNote.sections ≠ [] ∧ (∀ t ∈ shortNote.tracks, ∀ n ∈ t.notes, 0 ≤ n.start) ∧
    readBack? Vocabulary.standard fewTicks shortNote = some ⟨1, 2, 4, [⟨tempoEvents (120 : Rat)⟩,
      ⟨[⟨0, .programChange 0 (some 0)⟩, ⟨0, .noteOff 0 (some 60) (some 0)⟩,
        ⟨0, .noteOn 0 (some 60) (some 127)⟩, endEvent 0]⟩]⟩ ∧
    ¬ ∀ sound ∈ soundTracks Vocabulary.standard fewTicks shortNote, ∀ key played,
      played <+: Sorting.sort Cue.goesBefore sound.1.cues →
        endCount key played ≤ startCount key played := by
  have hhangs : (soundTracks Vocabulary.standard fewTicks shortNote).any (fun sound =>
      decide (startCount 60 ((Sorting.sort Cue.goesBefore sound.1.cues).take 2)
        < endCount 60 ((Sorting.sort Cue.goesBefore sound.1.cues).take 2))) = true := by
    decide +kernel
  refine ⟨by decide, by decide +kernel, by decide +kernel, fun h => ?_⟩
  obtain ⟨sound, hsound, hlt⟩ := List.any_eq_true.mp hhangs
  have hle := h sound hsound 60 _ (List.take_prefix 2 _)
  exact absurd hle (not_le.mpr (of_decide_eq_true hlt))

end LeadSheet.Midi
