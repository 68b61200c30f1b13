import LeadSheet.Proofs.Midi.Message
import LeadSheet.Proofs.Midi.Reading
import LeadSheet.Proofs.Number.Integers
import LeadSheet.Proofs.Sorting.Sort
import Mathlib.Data.List.Forall2
import Mathlib.Data.Prod.Lex

/-!
# A written track is a printed one

The cues of a track come out in stable order of tick and rank, each behind its wait, and together
they are the printed form of a list of events (`trackChunk_eq`). The list is not computed from the
cues: it is any list that goes with them, cue by cue, in tick and bytes (`Cue.Becomes`). That the
bytes of a cue are those of a channel message is shown where cues are made (`soundTracks_made`).
-/

namespace LeadSheet.Midi

variable {α : Type} [Scalar α]

/-! ## The order of cues -/

/-- The tick of a cue, as a number that can be counted to. -/
def Cue.at (c : Cue α) : Nat := ((Scalar.integer? c.tick).getD 0).toNat

/-- The tick of a cue, which may lie before the start. -/
def Cue.signed (c : Cue α) : Int := (Scalar.integer? c.tick).getD 0

/-- Cues are ordered by tick, at one tick by rank. -/
def Cue.place (c : Cue α) : Nat ×ₗ Nat := toLex (c.at, c.rank.place)

theorem Cue.signed_eq {c : Cue α} {n : Int} (h : Scalar.integer? c.tick = some n) :
    c.signed = n := by
  rw [Cue.signed, h]
  rfl

theorem Cue.at_eq {c : Cue α} {n : Nat} (h : Scalar.integer? c.tick = some n) : c.at = n := by
  rw [Cue.at, h]
  rfl

/-- Where a key orders the ticks, the exporter compares cues by it, and at one key by rank. -/
theorem goesBefore_comparesBy_key {κ : Type} [LinearOrder κ] (key : Cue α → κ) {cues : List (Cue α)}
    (h : ∀ a ∈ cues, ∀ b ∈ cues, a.tick < b.tick ↔ key a < key b) :
    Sorting.ComparesBy (fun c => toLex (key c, c.rank.place)) Cue.goesBefore cues := by
  intro a ha b hb
  unfold Cue.goesBefore
  rw [decide_eq_decide.mpr Prod.Lex.toLex_lt_toLex]
  rcases lt_trichotomy (key a) (key b) with hlt | heq | hgt
  · rw [if_pos ((h a ha b hb).mpr hlt)]
    exact (decide_eq_true (Or.inl hlt)).symm
  · -- at one tick the ranks decide
    rw [if_neg (mt (h a ha b hb).mp heq.not_lt), if_neg (mt (h b hb a ha).mp heq.symm.not_lt)]
    simp [heq]
  · rw [if_neg (mt (h a ha b hb).mp hgt.not_gt), if_pos ((h b hb a ha).mpr hgt)]
    refine (decide_eq_false ?_).symm
    rintro (hlt | ⟨heq, _⟩)
    · exact hgt.not_gt hlt
    · exact hgt.ne' heq

/-- At integer ticks the exporter compares cues by their places. -/
theorem goesBefore_comparesBy [ExactIntegers α] {cues : List (Cue α)}
    (h : ∀ cue ∈ cues, ∃ n : Nat, Scalar.integer? cue.tick = some n) :
    Sorting.ComparesBy Cue.place Cue.goesBefore cues := by
  refine goesBefore_comparesBy_key Cue.at fun a ha b hb => ?_
  obtain ⟨m, hm⟩ := h a ha
  obtain ⟨n, hn⟩ := h b hb
  rw [Cue.at_eq hm, Cue.at_eq hn, ExactIntegers.lt_iff hm hn]
  exact Int.ofNat_lt

/-! ## From cues to events -/

/-- An event with the tick and the bytes of a cue. -/
structure Cue.Becomes (c : Cue α) (e : FileEvent) : Prop where
  tick_eq : Scalar.integer? c.tick = some (e.tick : Int)
  bytes_eq : e.body.bytes = c.bytes

/-- Ticks that do not fall, with no wait too long for the reader. -/
def Waits (ticks : List Nat) : Prop := ticks.IsChain fun m n => m ≤ n ∧ n < m + 2 ^ 28

theorem encode?_of_integer? [ExactIntegers α] {x : α} {n : Nat}
    (h : Scalar.integer? x = some (n : Int)) :
    Quantity.encode? x = some (Quantity.encode n) := by
  have hpos : ¬x < (0 : α) := by
    rw [ExactIntegers.lt_iff h ExactIntegers.integer?_zero]
    omega
  rw [Quantity.encode?, if_neg hpos, h]
  rfl

/-- An event with the bytes of a cue, so many ticks behind that of the cue. -/
structure Cue.BecomesAfter (shift : Nat) (c : Cue α) (e : FileEvent) : Prop where
  tick_eq : Scalar.integer? c.tick = some ((e.tick : Int) - shift)
  bytes_eq : e.body.bytes = c.bytes

theorem Cue.becomesAfter_zero {c : Cue α} {e : FileEvent} : c.BecomesAfter 0 e ↔ c.Becomes e :=
  ⟨fun h => ⟨by simpa using h.tick_eq, h.bytes_eq⟩, fun h => ⟨by simpa using h.tick_eq, h.bytes_eq⟩⟩

/-- **Cues are printed** as the events they become, if those are as far behind the cues as the last
one was. Only waits are written, so that how far this is leaves no trace. -/
theorem deltaBytes_shifted [ExactIntegers α] {shift : Nat} {cues : List (Cue α)}
    {events : List FileEvent} (hevents : List.Forall₂ (Cue.BecomesAfter shift) cues events)
    {previous : α} {tick : Nat} (hprevious : Scalar.integer? previous = some ((tick : Int) - shift))
    (hwaits : Waits (tick :: events.map FileEvent.tick)) :
    deltaBytes previous cues = .ok (eventBytes tick events) := by
  induction hevents generalizing previous tick with
  | nil => rfl
  | @cons cue e cues events hcue _ ih =>
    obtain ⟨⟨hle, hlt⟩, hrest⟩ := List.isChain_cons_cons.mp hwaits
    -- the ticks do not fall, so the wait is their difference
    have hwait := Scalar.integer?_wait hprevious hcue.tick_eq (by omega) (by omega)
    rw [sub_sub_sub_cancel_right, ← Int.ofNat_sub hle] at hwait
    rw [deltaBytes]
    simp only [encode?_of_integer? hwait, ih hcue.tick_eq hrest]
    rw [eventBytes, hcue.bytes_eq]
    rfl

theorem deltaBytes_eq [ExactIntegers α] {cues : List (Cue α)} {events : List FileEvent}
    (hevents : List.Forall₂ Cue.Becomes cues events) {previous : α} {tick : Nat}
    (hprevious : Scalar.integer? previous = some (tick : Int))
    (hwaits : Waits (tick :: events.map FileEvent.tick)) :
    deltaBytes previous cues = .ok (eventBytes tick events) :=
  deltaBytes_shifted (hevents.imp fun _ _ => Cue.becomesAfter_zero.mpr) (by simpa using hprevious)
    hwaits

/-! ## A track -/

/-- The events that name a track. -/
def nameEvents (names : Bool) (name : String) : List FileEvent :=
  if names && name ≠ "" then [⟨0, .metadata (some trackNameMeta) (ascii name.toList)⟩] else []

/-- The event that ends a track. -/
def endEvent (tick : Nat) : FileEvent := ⟨tick, .metadata (some endOfTrackMeta) []⟩

/-- The last tick of events that start at a tick. -/
def lastTick : Nat → List FileEvent → Nat
  | tick, [] => tick
  | _, e :: rest => lastTick e.tick rest

theorem eventBytes_append : ∀ (tick : Nat) (events more : List FileEvent),
    eventBytes tick (events ++ more)
      = eventBytes tick events ++ eventBytes (lastTick tick events) more
  | _, [], _ => rfl
  | tick, e :: events, more => by
      rw [List.cons_append, eventBytes, eventBytes, eventBytes_append e.tick, lastTick]
      simp only [List.append_assoc]

theorem eventBytes_endEvent (tick : Nat) :
    eventBytes tick [endEvent tick] = Quantity.encode 0 ++ endOfTrack := by
  rw [eventBytes, endEvent, Nat.sub_self, eventBytes, List.append_nil]
  rfl

theorem eventBytes_nameEvents (names : Bool) (name : String) (events : List FileEvent) :
    eventBytes 0 (nameEvents names name ++ events)
      = (if names && name ≠ "" then Quantity.encode 0 ++ trackName name.toList else [])
        ++ eventBytes 0 events := by
  unfold nameEvents
  split
  · rw [List.singleton_append, eventBytes, Nat.sub_self]
    simp [EventBody.bytes, trackName]
  · rfl

/-- The events of a track, from its name to its end. -/
def writtenEvents (names : Bool) (name : String) (events : List FileEvent) : List FileEvent :=
  nameEvents names name ++ events ++ [endEvent (lastTick 0 events)]

/-- A track is printed as events, behind its name, if its cues are. -/
theorem trackChunk_of_deltaBytes (names : Bool) {track : CueTrack α} {events : List FileEvent}
    (h : deltaBytes 0 (Sorting.sort Cue.goesBefore track.cues) = .ok (eventBytes 0 events)) :
    trackChunk names track = .ok (FileTrack.bytes ⟨writtenEvents names track.name events⟩) := by
  rw [trackChunk, h, FileTrack.bytes, writtenEvents, List.append_assoc, eventBytes_nameEvents,
    eventBytes_append, eventBytes_endEvent]
  simp only [Except.map, List.append_assoc]

/-- **A track is printed** as the events its cues become, behind its name. -/
theorem trackChunk_eq [ExactIntegers α] (names : Bool) {track : CueTrack α}
    {events : List FileEvent}
    (hcues : List.Forall₂ Cue.Becomes (Sorting.sort Cue.goesBefore track.cues) events)
    (hwaits : Waits (0 :: events.map FileEvent.tick)) :
    trackChunk names track = .ok (FileTrack.bytes ⟨writtenEvents names track.name events⟩) := by
  have hstart : Scalar.integer? (0 : α) = some ((0 : Nat) : Int) := ExactIntegers.integer?_zero
  exact trackChunk_of_deltaBytes names (deltaBytes_eq hcues hstart hwaits)

/-- Complete events that do not end the track, with waits that the reader takes, are readable once
an end is put behind them. -/
theorem readable_append_end : ∀ {tick : Nat} {events : List FileEvent},
    Waits (tick :: events.map FileEvent.tick) →
    (∀ e ∈ events, e.body.Complete ∧ e.body.endsTrack = false) →
    Readable tick (events ++ [endEvent (lastTick tick events)])
  | tick, [], _, _ => .last (Nat.le_refl _) (by simp [endEvent, lastTick])
      (.metadata _ (by simp)) rfl
  | tick, e :: events, hwaits, hbodies => by
      obtain ⟨⟨hle, hlt⟩, hrest⟩ := List.isChain_cons_cons.mp hwaits
      obtain ⟨hcomplete, hends⟩ := hbodies e (List.mem_cons_self ..)
      exact .cons hle hlt hcomplete hends
        (readable_append_end hrest fun x hx => hbodies x (List.mem_cons_of_mem e hx))

theorem readable_writtenEvents {names : Bool} {name : String} {events : List FileEvent}
    (hname : names && name ≠ "" → name.length < 2 ^ 28)
    (hwaits : Waits (0 :: events.map FileEvent.tick))
    (hbodies : ∀ e ∈ events, e.body.Complete ∧ e.body.endsTrack = false) :
    Readable 0 (writtenEvents names name events) := by
  have h := readable_append_end hwaits hbodies
  unfold writtenEvents nameEvents
  split
  · next hnamed =>
    rw [List.append_assoc, List.singleton_append]
    refine .cons (Nat.le_refl _) (by simp) (.metadata _ ?_) rfl h
    rw [ascii_length, String.length_toList]
    exact hname hnamed
  · exact h

/-! ## Tracks one by one -/

/-- What is found for every item is found for a list of them. -/
theorem exists_forall₂ {β γ : Type} {R : β → γ → Prop} : ∀ {items : List β},
    (∀ a ∈ items, ∃ b, R a b) → ∃ found, List.Forall₂ R items found
  | [], _ => ⟨[], .nil⟩
  | a :: items, h => by
      obtain ⟨b, hb⟩ := h a (List.mem_cons_self ..)
      obtain ⟨found, hfound⟩ := exists_forall₂ fun x hx => h x (List.mem_cons_of_mem a hx)
      exact ⟨b :: found, .cons hb hfound⟩

section

variable {ε β γ : Type}

/-- What two steps give was given by the second one for what the first one gave. -/
theorem bind_eq_ok {x : Except ε β} {f : β → Except ε γ} {c : γ} :
    x >>= f = .ok c ↔ ∃ b, x = .ok b ∧ f b = .ok c := by
  cases x with
  | error e => exact ⟨nofun, nofun⟩
  | ok b =>
    refine ⟨fun h => ⟨b, rfl, h⟩, ?_⟩
    rintro ⟨_, ⟨⟩, h⟩
    exact h

theorem map_eq_ok {x : Except ε β} {f : β → γ} {c : γ} :
    x.map f = .ok c ↔ ∃ b, x = .ok b ∧ f b = c := by
  cases x with
  | error e => exact ⟨nofun, nofun⟩
  | ok b => simp [Except.map]

theorem toOption_eq_some {x : Except ε β} {b : β} : x.toOption = some b ↔ x = .ok b := by
  cases x with
  | error e => exact ⟨nofun, nofun⟩
  | ok b => simp [Except.toOption]

/-- Items that are worked through one by one. -/
theorem mapM_eq_ok {f : β → Except ε γ} {items : List β} {found : List γ} :
    items.mapM f = .ok found ↔ List.Forall₂ (fun a b => f a = .ok b) items found := by
  induction items generalizing found with
  | nil =>
    rw [List.mapM_nil, List.forall₂_nil_left_iff]
    exact ⟨fun h => (Except.ok.inj h).symm, fun h => congrArg Except.ok h.symm⟩
  | cons a items ih =>
    simp only [List.mapM_cons, bind_eq_ok, List.forall₂_cons_left_iff, ih]
    constructor
    · rintro ⟨b, hb, rest, hrest, ⟨⟩⟩
      exact ⟨b, rest, hb, hrest, rfl⟩
    · rintro ⟨b, rest, hb, hrest, rfl⟩
      exact ⟨b, hb, rest, hrest, rfl⟩

end

/-! ## Messages -/

/-- A channel message with seven-bit values. -/
structure EventBody.OnChannel (channel : Nat) (body : EventBody) : Prop where
  complete : body.Complete
  channel_eq : body.channel? = some channel
  sevenBits : ∀ b ∈ body.bytes.tail, b < 0x80

theorem EventBody.OnChannel.endsTrack_eq {channel : Nat} {body : EventBody}
    (h : body.OnChannel channel) : body.endsTrack = false := by
  have hchannel := h.channel_eq
  cases body with
  | metadata kind data => cases hchannel
  | _ => rfl

/-- The bytes of a channel message. -/
def IsMessage (channel : Nat) (bytes : List UInt8) : Prop :=
  ∃ body : EventBody, body.OnChannel channel ∧ body.bytes = bytes

section

variable {channel : Nat} (hc : channel < 16)

include hc

/-- A status byte and values of seven bits are a message, if they are the bytes of a body. -/
theorem isMessage_of_bytes {kind : Nat} {body : EventBody} (values : List Int)
    (hcomplete : body.Complete) (hchannel : body.channel? = some channel)
    (hbytes : body.bytes = UInt8.ofNat (kind + channel) :: values.map dataByte) :
    IsMessage channel (status kind channel :: values.map dataByte) := by
  refine ⟨body, ⟨hcomplete, hchannel, fun b hmem => ?_⟩, by rw [status_eq hc, hbytes]⟩
  rw [hbytes, List.tail_cons] at hmem
  obtain ⟨value, -, rfl⟩ := List.mem_map.mp hmem
  exact dataByte_lt value

theorem isMessage_noteOn (note velocity : Int) :
    IsMessage channel (noteOn channel note velocity) :=
  isMessage_of_bytes hc [note, velocity] (.noteOn _ _ hc) rfl rfl

theorem isMessage_noteOff (note velocity : Int) :
    IsMessage channel (noteOff channel note velocity) :=
  isMessage_of_bytes hc [note, velocity] (.noteOff _ _ hc) rfl rfl

theorem isMessage_controlChange (controller value : Int) :
    IsMessage channel (controlChange channel controller value) :=
  isMessage_of_bytes hc [controller, value] (.controlChange _ _ hc) rfl rfl

theorem isMessage_programChange (program : Int) :
    IsMessage channel (programChange channel program) :=
  isMessage_of_bytes hc [program] (.programChange _ hc) rfl rfl

end

/-! ## What tracks are made of -/

/-- The cues that a track on a channel is made of: notes, mixer settings and a program. -/
inductive Cue.Made (ppq : α) (channel : Nat) : Cue α → Prop where
  | note {pitch start duration velocity : α} {cue : Cue α} :
      cue ∈ noteCues ppq channel pitch start duration velocity → Made ppq channel cue
  | mixer {volume pan : α} {cue : Cue α} :
      cue ∈ mixerCues channel volume pan → Made ppq channel cue
  | program (number : Int) : Made ppq channel (setupCue (programChange channel number))

theorem mem_trackCues {v : Vocabulary α} {ppq sectionStart : α} {channel : Nat} {t : Track α}
    {cue : Cue α} (h : cue ∈ trackCues v ppq channel sectionStart t) :
    ∃ pitch start duration velocity, cue ∈ noteCues ppq channel pitch start duration velocity := by
  rcases List.mem_append.mp h with h | h
  · obtain ⟨n, _, hcue⟩ := List.mem_flatMap.mp h
    exact ⟨_, _, _, _, hcue⟩
  · obtain ⟨c, _, hchord⟩ := List.mem_flatMap.mp h
    obtain ⟨pitch, _, hcue⟩ := List.mem_flatMap.mp hchord
    exact ⟨_, _, _, _, hcue⟩

theorem made_instrumentTrack {v : Vocabulary α} {options : ExportOptions α} {s : Score α}
    {channel : Nat} {name : String} {cue : Cue α}
    (h : cue ∈ (instrumentTrack v options s channel name).1.cues) :
    cue.Made options.ppq channel := by
  rcases List.mem_append.mp h with h | h
  · obtain ⟨part, _, hpart⟩ := List.mem_flatMap.mp h
    obtain ⟨t, _, hcue⟩ := List.mem_flatMap.mp hpart
    obtain ⟨_, _, _, _, hnote⟩ := mem_trackCues hcue
    exact .note hnote
  · rcases List.mem_cons.mp h with rfl | h
    · exact .program _
    · split at h
      · split at h
        · exact .mixer h
        · cases h
      · cases h

theorem made_drumTrack {v : Vocabulary α} {options : ExportOptions α} {s : Score α} {cue : Cue α}
    (h : cue ∈ (drumTrack v options s).1.cues) : cue.Made options.ppq drumChannel := by
  rcases List.mem_append.mp h with h | h
  · obtain ⟨part, _, hpart⟩ := List.mem_flatMap.mp h
    obtain ⟨hit, _, hcue⟩ := List.mem_flatMap.mp hpart
    exact .note hcue
  · split at h
    · split at h
      · exact .mixer h
      · cases h
    · cases h

theorem melodicChannel_lt (index : Nat) : melodicChannel index < 16 := by
  unfold melodicChannel
  dsimp only
  split
  · split <;> omega
  · split <;> omega

/-- **Every sound track is made of messages on the channel that it reports.** -/
theorem soundTracks_made {v : Vocabulary α} {options : ExportOptions α} {s : Score α}
    {sound : CueTrack α × TrackInfo α} (h : sound ∈ soundTracks v options s) :
    sound.2.channel < 16 ∧ ∀ cue ∈ sound.1.cues, cue.Made options.ppq sound.2.channel := by
  rcases List.mem_append.mp h with h | h
  · obtain ⟨index, hindex, rfl⟩ := List.mem_mapIdx.mp h
    exact ⟨melodicChannel_lt index, fun cue hcue => made_instrumentTrack hcue⟩
  · split at h
    · cases List.mem_singleton.mp h
      exact ⟨(by decide : drumChannel < 16), fun cue hcue => made_drumTrack hcue⟩
    · cases h

theorem Cue.Made.isMessage {ppq : α} {channel : Nat} {cue : Cue α} (h : cue.Made ppq channel)
    (hc : channel < 16) : IsMessage channel cue.bytes := by
  cases h with
  | note hcue =>
    simp only [noteCues, List.mem_cons, List.not_mem_nil, or_false] at hcue
    rcases hcue with rfl | rfl
    · exact isMessage_noteOn hc _ _
    · exact isMessage_noteOff hc _ _
  | mixer hcue =>
    simp only [mixerCues, List.mem_cons, List.not_mem_nil, or_false] at hcue
    rcases hcue with rfl | rfl
    · exact isMessage_controlChange hc _ _
    · exact isMessage_controlChange hc _ _
  | program number => exact isMessage_programChange hc number

end LeadSheet.Midi
