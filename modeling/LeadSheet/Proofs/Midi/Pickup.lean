import LeadSheet.Proofs.Document.RoundTrip
import LeadSheet.Proofs.Midi.Opened
import LeadSheet.Proofs.Midi.RoundTrip
import LeadSheet.Proofs.Number.Waits
import LeadSheet.Proofs.Sorting.Permutation
import Mathlib.Data.List.Chain
import Mathlib.Data.List.MinMax

/-!
# Notes before the start

A note may start before the song does. A file cannot say so: it holds waits, and a wait is not
negative. The exporter waits no time for such a note, but counts the next wait from its tick. So the
first event of the track is read at the start of the song, and every other one as many ticks after
it as it was written: the whole track is late, by as much as its first event came early
(`CueTrack.pickup`). Only a track with nothing before the start keeps its ticks (`pickup_eq_zero`).

All this holds of every file that was written and can be read, if its waits are short
(`holdsLate_of_readBack`). That its ticks are numbers need not be assumed. A tick that lies
infinitely far back would take no time to wait for, but then the next wait would be infinite, and no
track consists of one such event (`isFinite_of_trackChunk`).
-/

namespace LeadSheet.Midi

section

variable {α : Type} [Scalar α]

/-! ## How far a track reaches back -/

/-- Cues are ordered by tick, before the start too, at one tick by rank. -/
def Cue.station (c : Cue α) : Int ×ₗ Nat := toLex (c.signed, c.rank.place)

/-- How many ticks before the start the first cue of a track is. -/
def CueTrack.pickup (track : CueTrack α) : Nat :=
  (track.cues.map fun c => (-c.signed).toNat).foldr max ⊥

theorem CueTrack.pickup_eq {track : CueTrack α} {first : Cue α} {rest : List (Cue α)}
    (hsort : Sorting.StableSort Cue.station track.cues (first :: rest)) :
    track.pickup = (-first.signed).toNat := by
  have hfirst : ∀ c ∈ track.cues, first.signed ≤ c.signed := by
    intro c hc
    rcases List.mem_cons.mp (hsort.mem_iff.mpr hc) with rfl | hc
    · exact le_rfl
    · exact (Prod.Lex.toLex_le_toLex'.mp (List.rel_of_pairwise_cons hsort.rising hc)).1
  refine le_antisymm (List.max_le_of_forall_le _ _ fun n hn => ?_) (List.le_max_of_le
    (List.mem_map_of_mem (hsort.mem_iff.mp List.mem_cons_self)) le_rfl)
  obtain ⟨c, hc, rfl⟩ := List.mem_map.mp hn
  have := hfirst c hc
  omega

theorem CueTrack.neg_signed_le_pickup {track : CueTrack α} {c : Cue α} (h : c ∈ track.cues) :
    -c.signed ≤ track.pickup := by
  have : (-c.signed).toNat ≤ track.pickup := List.le_max_of_le (List.mem_map_of_mem h) le_rfl
  omega

/-- Nothing is before the start exactly if no cue is. -/
theorem CueTrack.pickup_eq_zero {track : CueTrack α} :
    track.pickup = 0 ↔ ∀ c ∈ track.cues, 0 ≤ c.signed := by
  refine ⟨fun h c hc => ?_, fun h => Nat.le_zero.mp (List.max_le_of_forall_le _ _ fun n hn => ?_)⟩
  · have := neg_signed_le_pickup hc
    omega
  · obtain ⟨c, hc, rfl⟩ := List.mem_map.mp hn
    have := h c hc
    omega

/-! ## Tracks of one cue -/

/-- The only cue of a track is one that sets it up. -/
theorem tick_eq_of_cues_eq {v : Vocabulary α} {options : ExportOptions α} {s : Score α}
    {sound : CueTrack α × TrackInfo α} (h : sound ∈ soundTracks v options s) {cue : Cue α}
    (hcues : sound.1.cues = [cue]) : cue.tick = 0 := by
  have honly : ∀ c ∈ sound.1.cues, c = cue := fun c hc => List.mem_singleton.mp (hcues ▸ hc)
  rcases List.mem_append.mp h with h | h
  · obtain ⟨index, _, rfl⟩ := List.mem_mapIdx.mp h
    rw [← honly _ (List.mem_append_right _ List.mem_cons_self)]
    rfl
  · split at h
    · cases List.mem_singleton.mp h
      have hmem : cue ∈ (drumTrack v options s).1.cues := hcues ▸ List.mem_cons_self
      rcases List.mem_append.mp hmem with hnote | hmixer
      · -- every hit has an end, which is another cue
        obtain ⟨part, hpart, hnote⟩ := List.mem_flatMap.mp hnote
        obtain ⟨hit, hhit, -⟩ := List.mem_flatMap.mp hnote
        have hboth := fun c hc => honly c (List.mem_append_left _
          (List.mem_flatMap.mpr ⟨part, hpart, List.mem_flatMap.mpr ⟨hit, hhit, hc⟩⟩))
        have hstart := hboth _ List.mem_cons_self
        have hstop := hboth _ (List.mem_cons_of_mem _ List.mem_cons_self)
        cases congrArg Cue.rank (hstart.trans hstop.symm)
      · split at hmixer
        · split at hmixer
          · simp only [mixerCues, List.mem_cons, List.not_mem_nil, or_false] at hmixer
            rcases hmixer with rfl | rfl <;> rfl
          · cases hmixer
        · cases hmixer
    · cases h

end

/-! ## Ticks of a file that was written -/

open Double

theorem isFinite_of_encode? {x : Float} {bytes : List UInt8}
    (h : Quantity.encode? x = some bytes) : Scalar.isFinite x = true := by
  unfold Quantity.encode? at h
  split at h
  · cases h
  · obtain ⟨n, hn, -⟩ := Option.map_eq_some_iff.mp h
    rw [isFinite_eq, valueOf?_of_integer? hn]
    rfl

/-- Cues that were written have ticks that are numbers, but for the last one, which may also lie
below every number. -/
theorem isFinite_of_deltaBytes : ∀ {cues : List (Cue Float)} {previous : Float}
    {bytes : List UInt8}, deltaBytes previous cues = .ok bytes →
    Scalar.isFinite previous = true →
    (∀ c ∈ cues, Scalar.isFinite c.tick = true) ∨
      ∃ start last, cues = start ++ [last] ∧ (∀ c ∈ start, Scalar.isFinite c.tick = true) ∧
        Bottom last.tick
  | [], _, _, _, _ => .inl nofun
  | cue :: cues, previous, bytes, h, hprevious => by
      obtain ⟨time, rest, htime, hrest, -⟩ := deltaBytes_cons_eq_ok.mp h
      rcases isFinite_or_bottom_of_wait hprevious (isFinite_of_encode? htime) with htick | hbottom
      · rcases isFinite_of_deltaBytes hrest htick with hall | ⟨start, last, rfl, hstart, hlast⟩
        · exact .inl (List.forall_mem_cons.mpr ⟨htick, hall⟩)
        · exact .inr ⟨cue :: start, last, rfl, List.forall_mem_cons.mpr ⟨htick, hstart⟩, hlast⟩
      · -- from there no wait can be written, so there is nothing behind it
        cases cues with
        | nil => exact .inr ⟨[], cue, rfl, nofun, hbottom⟩
        | cons next cues =>
          obtain ⟨_, _, hnext, -, -⟩ := deltaBytes_cons_eq_ok.mp hrest
          exact absurd (isFinite_of_encode? hnext) (Bool.eq_false_iff.mp hbottom.isFinite_wait)

/-- The value of a tick, or below every value. -/
def Cue.level (c : Cue Float) : WithBot Rat := valueOf? c.tick

theorem Cue.level_eq_bot {c : Cue Float} (h : Bottom c.tick) : c.level = ⊥ := by
  have := h.isFinite_eq
  rw [isFinite_eq, Option.isSome_eq_false_iff, Option.isNone_iff_eq_none] at this
  exact this

theorem Cue.exists_level {c : Cue Float} (h : Scalar.isFinite c.tick = true) :
    ∃ q : Rat, valueOf? c.tick = some q ∧ c.level = q := by
  rw [isFinite_eq] at h
  obtain ⟨q, hq⟩ := Option.isSome_iff_exists.mp h
  exact ⟨q, hq, hq⟩

theorem goesBefore_comparesBy_level {cues : List (Cue Float)}
    (h : ∀ c ∈ cues, Scalar.isFinite c.tick = true ∨ Bottom c.tick) :
    Sorting.ComparesBy (fun c => toLex (c.level, c.rank.place)) Cue.goesBefore cues := by
  refine goesBefore_comparesBy_key Cue.level fun a ha b hb => ?_
  rcases h b hb with hb' | hb'
  · obtain ⟨q, hq, hbq⟩ := Cue.exists_level hb'
    rw [hbq]
    rcases h a ha with ha' | ha'
    · obtain ⟨p, hp, hap⟩ := Cue.exists_level ha'
      rw [hap, WithBot.coe_lt_coe, lt_iff_valueOf? hp hq]
    · rw [Cue.level_eq_bot ha']
      exact iff_of_true (ha'.lt hb') (WithBot.bot_lt_coe q)
  · rw [Cue.level_eq_bot hb']
    exact iff_of_false hb'.not_lt not_lt_bot

/-- **The ticks of a track that was written are numbers**, if a cue that is alone is at the start.
-/
theorem isFinite_of_trackChunk {names : Bool} {track : CueTrack Float} {bytes : List UInt8}
    (h : trackChunk names track = .ok bytes)
    (honly : ∀ cue, track.cues = [cue] → cue.tick = Scalar.ofNat 0) :
    ∀ c ∈ track.cues, Scalar.isFinite c.tick = true := by
  have hzero : Scalar.isFinite (Scalar.ofNat 0 : Float) = true := by decide +kernel
  obtain ⟨cues, hcues, -⟩ := content_of_trackChunk h
  have hperm := Sorting.sort_perm Cue.goesBefore track.cues
  rcases isFinite_of_deltaBytes hcues hzero with hall | ⟨start, last, hsort, hstart, hlast⟩
  · exact fun c hc => hall c (hperm.mem_iff.mpr hc)
  · exfalso
    have hmem : ∀ c ∈ track.cues, Scalar.isFinite c.tick = true ∨ Bottom c.tick := by
      intro c hc
      rw [← hperm.mem_iff, hsort] at hc
      rcases List.mem_append.mp hc with hc | hc
      · exact .inl (hstart c hc)
      · exact .inr (List.mem_singleton.mp hc ▸ hlast)
    -- the last cue is not after any other one, so it is the only one
    have hrising := (Sorting.sort_stable (goesBefore_comparesBy_level hmem)).rising
    rw [hsort] at hrising
    match start, hsort with
    | [], hsort =>
      rw [List.nil_append] at hsort
      have htick := honly last (List.perm_singleton.mp (hsort ▸ hperm.symm))
      have hfinite := hlast.isFinite_eq
      rw [htick, hzero] at hfinite
      cases hfinite
    | c :: rest, _ =>
      have hle := List.rel_of_pairwise_cons hrising
        (List.mem_append_right rest (List.mem_singleton_self last))
      have hlevel := (Prod.Lex.toLex_le_toLex'.mp hle).1
      obtain ⟨q, -, hq⟩ := Cue.exists_level (hstart c List.mem_cons_self)
      dsimp only at hlevel
      rw [Cue.level_eq_bot hlast, hq, le_bot_iff] at hlevel
      exact WithBot.coe_ne_bot hlevel

theorem exists_integer?_round {x : Float} (h : Scalar.isFinite (Scalar.round x) = true) :
    ∃ n, Scalar.integer? (Scalar.round x) = some n := by
  cases hx : valueOf? x with
  | some q => exact ⟨_, integer?_round hx⟩
  | none =>
    -- what is not a number is not rounded
    have hround : Scalar.round x = x := by
      rw [Scalar.round, floor?_eq, hx]
      rfl
    rw [hround, isFinite_eq, hx] at h
    cases h

/-- Ticks are rounded to integers. -/
theorem Cue.Made.exists_integer? {ppq : Float} {channel : Nat} {cue : Cue Float}
    (h : cue.Made ppq channel) (hfinite : Scalar.isFinite cue.tick = true) :
    ∃ n, Scalar.integer? cue.tick = some n := by
  cases h with
  | note hcue =>
    simp only [noteCues, List.mem_cons, List.not_mem_nil, or_false] at hcue
    rcases hcue with rfl | rfl <;> exact exists_integer?_round hfinite
  | mixer hcue =>
    simp only [mixerCues, List.mem_cons, List.not_mem_nil, or_false] at hcue
    rcases hcue with rfl | rfl <;> exact ⟨0, ExactIntegers.integer?_zero⟩
  | program number => exact ⟨0, ExactIntegers.integer?_zero⟩

/-! ## Events that are late -/

theorem goesBefore_comparesBy_station {cues : List (Cue Float)}
    (h : ∀ c ∈ cues, ∃ n, Scalar.integer? c.tick = some n) :
    Sorting.ComparesBy Cue.station Cue.goesBefore cues := by
  refine goesBefore_comparesBy_key Cue.signed fun a ha b hb => ?_
  obtain ⟨m, hm⟩ := h a ha
  obtain ⟨n, hn⟩ := h b hb
  rw [Cue.signed_eq hm, Cue.signed_eq hn, ExactIntegers.lt_iff hm hn]

/-- Cues in order are printed as the events that are late by what the first one is early. -/
theorem deltaBytes_late {shift : Nat} {first : Cue Float} {cues : List (Cue Float)}
    {events : List FileEvent} (hshift : shift = (-first.signed).toNat)
    (hevents : List.Forall₂ (Cue.BecomesAfter shift) (first :: cues) events)
    (hwaits : Waits (0 :: events.map FileEvent.tick)) :
    deltaBytes 0 (first :: cues) = .ok (eventBytes 0 events) := by
  obtain ⟨event, rest, hfirst, hrest, rfl⟩ := List.forall₂_cons_left_iff.mp hevents
  obtain ⟨-, hwaits⟩ := List.isChain_cons_cons.mp hwaits
  have hsigned := Cue.signed_eq hfirst.tick_eq
  have hwait := integer?_wait_start hfirst.tick_eq
  have htick : max 0 ((event.tick : Int) - shift) = (event.tick : Nat) := by omega
  rw [htick] at hwait
  refine deltaBytes_cons_eq_ok.mpr ⟨_, _, encode?_of_integer? hwait,
    deltaBytes_shifted hrest hfirst.tick_eq hwaits, ?_⟩
  rw [eventBytes, hfirst.bytes_eq, Nat.sub_zero]

/-! ## What can be read, and what is read of it -/

/-- A track without long waits, before its first event or between two of them, whose bytes can be
counted. -/
structure CueTrack.Near (names : Bool) (track : CueTrack Float) : Prop where
  waits : (0 :: (Sorting.sort Cue.goesBefore track.cues).map Cue.signed).IsChain
    fun m n => n < m + 2 ^ 28
  countable : track.Countable names

instance (names : Bool) (track : CueTrack Float) : Decidable (track.Near names) :=
  decidable_of_iff
    ((0 :: (Sorting.sort Cue.goesBefore track.cues).map Cue.signed).IsChain
        (fun m n => n < m + 2 ^ 28) ∧
      ∀ bytes ∈ (trackChunk names track).toOption, bytes.length < 2 ^ 32 + 8)
    ⟨fun h => ⟨h.1, fun bytes hb => h.2 bytes (toOption_eq_some.mpr hb)⟩,
      fun h => ⟨h.waits, fun bytes hb => h.countable bytes (toOption_eq_some.mp hb)⟩⟩

/-- A track that was read holds a track of cues, late by what its first cue is early: the cues in
stable order, each of them a message on the channel, behind the name and in front of one end. -/
def FileTrack.HoldsLate (names : Bool) (channel : Nat) (track : CueTrack Float) (t : FileTrack) :
    Prop :=
  ∃ order events, Sorting.StableSort Cue.station track.cues order ∧
    List.Forall₂ (Cue.BecomesAfter track.pickup) order events ∧
    (∀ e ∈ events, e.body.OnChannel channel) ∧
    t.events = writtenEvents names track.name events

/-- Cues without long waits become events without long waits. -/
theorem waits_late {track : CueTrack Float} {order : List (Cue Float)}
    (hsort : Sorting.StableSort Cue.station track.cues order)
    (hnear : (0 :: order.map Cue.signed).IsChain fun m n => n < m + 2 ^ 28) :
    Waits (0 :: order.map fun c => (c.signed + (track.pickup : Int)).toNat) := by
  refine waits_of_rising (List.pairwise_cons.mpr ⟨fun n _ => Nat.zero_le n, ?_⟩) ?_
  · rw [List.pairwise_map]
    refine hsort.rising.imp fun hle => ?_
    have := (Prod.Lex.toLex_le_toLex'.mp hle).1
    omega
  · have hbetween : order.IsChain fun a b => b.signed < a.signed + 2 ^ 28 :=
      (List.isChain_map Cue.signed).mp hnear.tail
    cases order with
    | nil => exact .singleton _
    | cons first rest =>
      have hfirst := CueTrack.pickup_eq hsort
      have hstart := (List.isChain_cons_cons.mp hnear).1
      exact .cons_cons (by dsimp only; omega) (List.isChain_map_of_isChain
        (fun c => (c.signed + (track.pickup : Int)).toNat) (fun a b hlt => by omega) hbetween)

/-- A track is printed as events that are late by what its first cue is early. -/
theorem CueTrack.ReadAs.holdsLate {names : Bool} {channel : Nat} {track : CueTrack Float}
    {t : FileTrack} (h : track.ReadAs names t) (hnear : track.Near names)
    (hticks : ∀ c ∈ track.cues, ∃ n, Scalar.integer? c.tick = some n)
    (hmessages : ∀ c ∈ track.cues, IsMessage channel c.bytes) :
    t.HoldsLate names channel track := by
  have hsort := Sorting.sort_stable (goesBefore_comparesBy_station hticks)
  have hmem := fun c => (hsort.mem_iff (x := c)).mp
  obtain ⟨events, hlate, hon, hmap⟩ := exists_events track.pickup
    (fun c hc => by
      obtain ⟨n, hn⟩ := hticks c (hmem c hc)
      have := neg_signed_le_pickup (hmem c hc)
      rw [Cue.signed_eq hn] at this
      exact ⟨(n + track.pickup).toNat, hn.trans (congrArg some (by omega))⟩)
    (fun c hc => hmessages c (hmem c hc))
  have hwaits : Waits (0 :: events.map FileEvent.tick) := hmap ▸ waits_late hsort hnear.waits
  have hdeltas : deltaBytes 0 (Sorting.sort Cue.goesBefore track.cues)
      = .ok (eventBytes 0 events) := by
    match hcues : Sorting.sort Cue.goesBefore track.cues, hlate with
    | [], .nil => rfl
    | first :: rest, hlate => exact deltaBytes_late (pickup_eq (hcues ▸ hsort)) hlate hwaits
  exact ⟨_, events, hsort, hlate, hon, h.events_eq (trackChunk_of_deltaBytes names hdeltas)
    (readable_writtenEvents h.name_lt hwaits fun e he =>
      ⟨(hon e he).complete, (hon e he).endsTrack_eq⟩)⟩

/-- **What is read back is late by what comes before the start.** If a score was written and can be
read, and its tracks have no long waits, then each track that is read holds the messages of one
sound track, all of them as many ticks after their own as the first of them was before the start. -/
theorem holdsLate_of_readBack {v : Vocabulary Float} {options : ExportOptions Float}
    {s : Score Float} {file : File} (hread : readBack? v options s = some file)
    (hnear : ∀ sound ∈ soundTracks v options s, sound.1.Near options.trackNames) :
    List.Forall₂ (fun sound t => t.HoldsLate options.trackNames sound.2.channel sound.1)
      ((soundTracks v options s).take (((soundTracks v options s).length + 1) % 2 ^ 16 - 1))
      file.tracks.tail := by
  have htracks := tail_of_readBack hread fun sound hsound => (hnear sound hsound).countable
  refine ((List.forall₂_and_left _ _).mpr ⟨fun sound => List.mem_of_mem_take, htracks⟩).imp ?_
  intro sound t h
  obtain ⟨hchannel, hmade⟩ := soundTracks_made h.1
  obtain ⟨bytes, hbytes⟩ := h.2.exists_chunk
  have hfinite := isFinite_of_trackChunk hbytes fun cue => tick_eq_of_cues_eq h.1
  exact h.2.holdsLate (hnear sound h.1)
    (fun c hc => (hmade c hc).exists_integer? (hfinite c hc))
    (fun c hc => (hmade c hc).isMessage hchannel)

/-- A melody that starts one beat before the song. -/
def earlyMelody : Score Float where
  title := "Pickup"
  tempo := 120
  key := "C"
  timeSignature := "4/4"
  sections :=
    [{ name := "Verse", bars := 1, startBar := 0, key := none, tempo := none
       tracks := [⟨"Lead", "piano", [⟨60, -1, 0.5, 1⟩, ⟨62, 0, 1, 1⟩], [], 1, 1⟩]
       drums := none }]

/-- Ninety-six ticks a beat, and nothing but notes. -/
def plainOptions : ExportOptions Float := ⟨96, false, false⟩

theorem holdsLate_earlyMelody :
    ∃ file, readBack? Vocabulary.standard plainOptions earlyMelody = some file ∧
      (∀ sound ∈ soundTracks Vocabulary.standard plainOptions earlyMelody, sound.1.Near false) ∧
      List.Forall₂ (fun sound t => t.HoldsLate false sound.2.channel sound.1)
        (soundTracks Vocabulary.standard plainOptions earlyMelody) file.tracks.tail := by
  have hread : (readBack? Vocabulary.standard plainOptions earlyMelody).isSome = true := by
    decide +kernel
  have hnear : ∀ sound ∈ soundTracks Vocabulary.standard plainOptions earlyMelody,
      sound.1.Near false := by
    decide +kernel
  have hlength : (soundTracks Vocabulary.standard plainOptions earlyMelody).length = 1 := by
    decide +kernel
  obtain ⟨file, hfile⟩ := Option.isSome_iff_exists.mp hread
  have htracks := holdsLate_of_readBack hfile hnear
  rw [hlength, List.take_of_length_le (by rw [hlength]; decide)] at htracks
  exact ⟨file, hfile, hnear, htracks⟩

/-- **A note before the start moves the notes behind it.** The score can be loaded, its file is
written and read, and no wait is long. But not every cue is found in the file at its tick, or at the
start if it comes before that. -/
theorem late_earlyMelody :
    (∀ registry options,
      Document.load registry options (Document.ofScore earlyMelody) = ⟨.ok earlyMelody, []⟩) ∧
    (∀ sound ∈ soundTracks Vocabulary.standard plainOptions earlyMelody, sound.1.Near false) ∧
    ∃ file, readBack? Vocabulary.standard plainOptions earlyMelody = some file ∧
      ¬ ∀ sound ∈ soundTracks Vocabulary.standard plainOptions earlyMelody, ∃ t ∈ file.tracks,
        ∀ cue ∈ sound.1.cues, ∃ e ∈ t.events,
          e.body.bytes = cue.bytes ∧ (e.tick : Int) = max 0 cue.signed := by
  have hread : (readBack? Vocabulary.standard plainOptions earlyMelody).any (fun file =>
      decide (¬ ∀ sound ∈ soundTracks Vocabulary.standard plainOptions earlyMelody,
        ∃ t ∈ file.tracks, ∀ cue ∈ sound.1.cues, ∃ e ∈ t.events,
          e.body.bytes = cue.bytes ∧ (e.tick : Int) = max 0 cue.signed)) = true := by
    decide +kernel
  refine ⟨fun registry options => Document.load_storable registry options
    ⟨by decide +kernel, by decide +kernel⟩, by decide +kernel, ?_⟩
  obtain ⟨file, hfile, hmoved⟩ := (Option.any_eq_true _ _).mp hread
  exact ⟨file, hfile, of_decide_eq_true hmoved⟩

end LeadSheet.Midi
