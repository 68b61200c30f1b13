import LeadSheet.Proofs.Playback.Incidents
import Mathlib.Data.List.Nodup

/-!
# The synthesizer has the current sounds

The channels get their sounds when playing starts from the beginning, and not when it resumes. In
between, sounds may change at any time, and another song brings sounds of its own. Still, wherever
a player plays or has paused, the last setup that the synthesizer received for a channel carries the
sound that its track has now (`sounds_received`).

The invariant says that and what it rests on (`Tuned`): the entries of the song's channel plan have
names and channels of their own, and each of their names has a sound. At rest at the start, nothing
is asked of what was received, so stopping and taking another song keep it for free; starting
establishes it; and changing a sound sends just the setup that is due.
-/

namespace LeadSheet.Playback

variable {α : Type}

/-! ## Sounds by name -/

namespace Sounds

theorem get?_cons (name : String) (sound : Sound α) (rest : Sounds α) (track : String) :
    get? ((name, sound) :: rest) track = if track = name then some sound else rest.get? track := by
  unfold get?
  rw [List.lookup_cons]
  by_cases h : track = name
  · rw [if_pos h, beq_iff_eq.mpr h]
  · rw [if_neg h, beq_eq_false_iff_ne.mpr h]

/-- A track has the sound that it was given, and other tracks keep theirs. -/
theorem get?_put (sounds : Sounds α) (track : String) (sound : Sound α) (other : String) :
    (sounds.put track sound).get? other
      = if other = track then some sound else sounds.get? other := by
  induction sounds with
  | nil => rw [put, get?_cons]
  | cons entry rest ih =>
    obtain ⟨name, old⟩ := entry
    rw [put]
    split
    · next hname =>
      rw [get?_cons, get?_cons, hname]
      split <;> rfl
    · next hname =>
      rw [get?_cons, get?_cons, ih]
      by_cases h : other = name
      · rw [if_pos h, if_pos h, if_neg (h ▸ hname)]
      · rw [if_neg h, if_neg h]

end Sounds

/-- What alone passes a test is found, wherever it stands. -/
theorem find?_eq_of_unique {β : Type} {items : List β} {test : β → Bool} {x : β} (hx : x ∈ items)
    (htest : test x = true) (hunique : ∀ y ∈ items, test y = true → y = x) :
    items.find? test = some x := by
  obtain ⟨y, hy⟩ := Option.isSome_iff_exists.mp (List.find?_isSome.mpr ⟨x, hx, htest⟩)
  rw [hy, hunique y (List.mem_of_find?_eq_some hy) (List.find?_some hy)]

/-- The entries of a channel plan have names and channels of their own. -/
structure Distinct (plan : List (Assignment α)) : Prop where
  tracks : (plan.map (·.track)).Nodup
  channels : (plan.map (·.channel)).Nodup

namespace Distinct

variable {plan : List (Assignment α)} {a b : Assignment α}

theorem eq_of_track (h : Distinct plan) (ha : a ∈ plan) (hb : b ∈ plan)
    (htrack : a.track = b.track) : a = b :=
  List.inj_on_of_nodup_map h.tracks ha hb htrack

theorem eq_of_channel (h : Distinct plan) (ha : a ∈ plan) (hb : b ∈ plan)
    (hchannel : a.channel = b.channel) : a = b :=
  List.inj_on_of_nodup_map h.channels ha hb hchannel

theorem find?_track (h : Distinct plan) (ha : a ∈ plan) :
    plan.find? (·.track == a.track) = some a :=
  find?_eq_of_unique ha (by simp) fun _ hb htrack => h.eq_of_track hb ha (by simpa using htrack)

end Distinct

/-- With every song, each track of its plan gets a sound. -/
theorem Sounds.isSome_planned [Scalar α] {plan : List (Assignment α)} {a : Assignment α}
    (ha : a ∈ plan) (changes : List (String × SoundChange α)) :
    ((planned plan changes).get? a.track).isSome := by
  suffices hall : ∀ (plan : List (Assignment α)) (sounds : Sounds α),
      a ∈ plan ∨ (sounds.get? a.track).isSome →
        ((plan.foldl (fun sounds b =>
          sounds.put b.track ((Sound.planned b).change ((changes.lookup b.track).getD {})))
          sounds).get? a.track).isSome from
    hall plan [] (.inl ha)
  intro plan
  induction plan with
  | nil => exact fun sounds h => h.resolve_left List.not_mem_nil
  | cons b rest ih =>
    intro sounds h
    refine ih _ ?_
    rw [Sounds.get?_put]
    split
    · exact .inr rfl
    · next hother =>
      refine h.imp_left fun hmem => ?_
      exact (List.mem_cons.mp hmem).resolve_left fun heq => hother (by rw [heq])

/-! ## Setups received -/

/-- The setup that a call brings, if it brings one. -/
def Call.setup? : Call α → Option (ChannelSetup α)
  | .order (.setup setup) => some setup
  | _ => none

/-- The setup that was received last for a channel. -/
def lastSetup? (channel : Nat) (calls : List (Call α)) : Option (ChannelSetup α) :=
  (calls.filterMap Call.setup?).reverse.find? (·.channel = channel)

theorem lastSetup?_append (channel : Nat) (calls more : List (Call α)) :
    lastSetup? channel (calls ++ more)
      = (lastSetup? channel more).or (lastSetup? channel calls) := by
  unfold lastSetup?
  rw [List.filterMap_append, List.reverse_append, List.find?_append]

/-- Other calls leave the setups as they are. -/
theorem lastSetup?_quiet {channel : Nat} {calls more : List (Call α)}
    (hmore : ∀ call ∈ more, call.setup? = none) :
    lastSetup? channel (calls ++ more) = lastSetup? channel calls := by
  have hnone : more.filterMap Call.setup? = [] := List.filterMap_eq_nil_iff.mpr hmore
  rw [lastSetup?_append, lastSetup?, hnone]
  rfl

/-- Orders other than setups leave the setups as they are. -/
theorem setup?_orders {given : List (Order α)} (hgiven : ∀ setup, .setup setup ∉ given) :
    ∀ call ∈ given.map Call.order, call.setup? = none := by
  intro call hcall
  obtain ⟨order, horder, rfl⟩ := List.mem_map.mp hcall
  cases order with
  | setup setup => exact absurd horder (hgiven setup)
  | schedule event time => rfl
  | cancelAll => rfl
  | dispose => rfl

theorem lastSetup?_setups (channel : Nat) (setups : List (ChannelSetup α)) :
    lastSetup? channel ((setups.map Order.setup).map .order)
      = setups.reverse.find? (·.channel = channel) := by
  rw [lastSetup?, List.map_map, List.filterMap_map]
  exact congrArg (fun setups : List (ChannelSetup α) => setups.reverse.find? (·.channel = channel))
    List.filterMap_some

/-- Where all channels get their sounds, each gets that of its track. -/
theorem Distinct.lastSetup?_channelSetups {p : Player α} {a : Assignment α} {sound : Sound α}
    (h : Distinct p.timeline.channels) (ha : a ∈ p.timeline.channels)
    (hsound : p.sounds.get? a.track = some sound) :
    lastSetup? a.channel ((p.channelSetups.map Order.setup).map .order)
      = some ⟨a.channel, sound⟩ := by
  have hmem : ⟨a.channel, sound⟩ ∈ p.channelSetups :=
    List.mem_filterMap.mpr ⟨a, ha, by rw [hsound]; rfl⟩
  rw [lastSetup?_setups]
  refine find?_eq_of_unique (List.mem_reverse.mpr hmem) (by simp) fun setup hsetup hchannel => ?_
  -- whichever setup is for the channel, it is of the same entry
  obtain ⟨b, hb, hother⟩ := List.mem_filterMap.mp (List.mem_reverse.mp hsetup)
  obtain ⟨other, hget, rfl⟩ := Option.map_eq_some_iff.mp hother
  obtain rfl := h.eq_of_channel hb ha (by simpa using hchannel)
  rw [Option.some.inj (hget.symm.trans hsound)]

/-- A round hands events over and no sounds. -/
theorem Player.setup_notMem_tick [Scalar α] (p : Player α) (now : α) (setup : ChannelSetup α) :
    .setup setup ∉ ordersOf (p.tick now).commands := by
  have hhanded : .order (.setup setup) ∉ (p.upcoming now).filterMap (p.dispatch? now) := by
    intro hmem
    obtain ⟨event, -, hevent⟩ := List.mem_filterMap.mp hmem
    obtain ⟨time, hcommand⟩ := of_dispatch? hevent
    cases hcommand
  rw [mem_ordersOf]
  unfold tick
  split
  · dsimp only
    split
    · simpa using hhanded
    · exact hhanded
  · exact List.not_mem_nil

/-! ## Tuned players -/

/-- The song's channels are distinct, its tracks have sounds, and unless the player is stopped, the
synthesizer received them. -/
structure Tuned (p : Player α) (calls : List (Call α)) : Prop where
  distinct : Distinct p.timeline.channels
  known : ∀ a ∈ p.timeline.channels, (p.sounds.get? a.track).isSome
  current : p.mode ≠ .stopped → ∀ a ∈ p.timeline.channels, ∀ sound,
    p.sounds.get? a.track = some sound → lastSetup? a.channel calls = some ⟨a.channel, sound⟩

/-- The player that replies is tuned when the orders were heard. -/
def Reply.Tunes (calls : List (Call α)) (r : Reply α) : Prop :=
  Tuned r.player (calls ++ (ordersOf r.commands).map .order)

theorem Reply.Tunes.after {calls : List (Call α)} {commands : List (Command α)} {r : Reply α}
    (h : r.Tunes (calls ++ (ordersOf commands).map .order)) : (r.after commands).Tunes calls := by
  unfold Reply.Tunes Reply.after at *
  rwa [ordersOf_append, List.map_append, ← List.append_assoc]

namespace Tuned

variable {p : Player α} {calls : List (Call α)}

/-- Another player of the same song with the same sounds, which is stopped if the first one is. -/
theorem keep (h : Tuned p calls) {q : Player α} {more : List (Call α)}
    (hmore : ∀ call ∈ more, call.setup? = none) (htimeline : q.timeline = p.timeline)
    (hsounds : q.sounds = p.sounds) (hmode : q.mode ≠ .stopped → p.mode ≠ .stopped) :
    Tuned q (calls ++ more) := by
  refine ⟨?_, ?_, fun hstarted => ?_⟩
  · rw [htimeline]
    exact h.distinct
  · rw [htimeline, hsounds]
    exact h.known
  · rw [htimeline, hsounds]
    intro a ha sound hsound
    rw [lastSetup?_quiet hmore]
    exact h.current (hmode hstarted) a ha sound hsound

theorem nothing (h : Tuned p calls) : Reply.Tunes calls ⟨p, [], false⟩ :=
  h.keep (by simp [ordersOf]) rfl rfl id

/-- Whatever sound a track is given, the setup for its channel follows. -/
theorem setSound (h : Tuned p calls) (track : String) (change : SoundChange α) :
    (p.setSound track change).Tunes calls := by
  unfold Player.setSound
  split
  · next old a hold ha =>
    have hassigned : a ∈ p.timeline.channels := List.mem_of_find?_eq_some ha
    have htrack : a.track = track := by simpa using List.find?_some ha
    refine ⟨h.distinct, fun b hb => ?_, fun hstarted b hb sound hsound => ?_⟩
    · dsimp only
      rw [Sounds.get?_put]
      split
      · rfl
      · exact h.known b hb
    · dsimp only at hsound
      change lastSetup? b.channel (calls ++ ([_].map Order.setup).map Call.order) = _
      rw [Sounds.get?_put] at hsound
      rw [lastSetup?_append, lastSetup?_setups]
      split at hsound
      · next hsame =>
        -- the entry whose sound changes
        obtain rfl := h.distinct.eq_of_track hb hassigned (hsame.trans htrack.symm)
        obtain rfl := Option.some.inj hsound
        simp
      · next hother =>
        have hchannel : a.channel ≠ b.channel := fun heq =>
          hother (h.distinct.eq_of_channel hassigned hb heq ▸ htrack)
        simpa [hchannel] using h.current hstarted b hb sound hsound
  · exact h.nothing

variable [Scalar α]

theorem tick (h : Tuned p calls) (now : α) : (p.tick now).Tunes calls := by
  have hquiet := setup?_orders (p.setup_notMem_tick now)
  obtain ⟨cursor, hplayer | hplayer⟩ := p.player_tick now
  · unfold Reply.Tunes
    rw [hplayer]
    exact h.keep hquiet rfl rfl id
  · unfold Reply.Tunes
    rw [hplayer]
    exact h.keep hquiet rfl rfl (absurd rfl)

/-- Playing starts with the sounds of all channels, and resumes with none, since the synthesizer has
them. -/
theorem play (h : Tuned p calls) (now : α) : (p.play now).Tunes calls := by
  unfold Player.play
  split
  · exact h.nothing
  · let started := { p.startAt now p.heldPosition with mode := .playing }
    refine Reply.Tunes.after (Tuned.tick (p := started) ⟨h.distinct, h.known, ?_⟩ now)
    intro _ a ha sound hsound
    rw [ordersOf_append, List.map_append]
    change lastSetup? a.channel (calls ++ ((ordersOf _).map Call.order ++ [])) = _
    rw [List.append_nil]
    split
    · rw [p.setups_eq, ordersOf_orders, lastSetup?_append,
        h.distinct.lastSetup?_channelSetups ha hsound]
      rfl
    · next hpaused =>
      rw [ordersOf, List.filterMap_nil, List.map_nil, List.append_nil]
      exact h.current hpaused a ha sound hsound

theorem pause (h : Tuned p calls) (now : α) : (p.pause now).Tunes calls := by
  unfold Player.pause
  split
  · next hplaying =>
    exact h.keep (setup?_orders (by simp [ordersOf, Command.order?])) rfl rfl (by simp [hplaying])
  · exact h.nothing

omit [Scalar α] in
/-- Of a player that is stopped, nothing has to be received. -/
theorem of_stopped {q : Player α} (hdistinct : Distinct q.timeline.channels)
    (hknown : ∀ a ∈ q.timeline.channels, (q.sounds.get? a.track).isSome)
    (hstopped : q.mode = .stopped) (calls : List (Call α)) : Tuned q calls :=
  ⟨hdistinct, hknown, fun hstarted => absurd hstopped hstarted⟩

theorem seek (h : Tuned p calls) (now seconds : α) : (p.seek now seconds).Tunes calls := by
  have hsilence : ∀ call ∈ (ordersOf [.order (.cancelAll : Order α)]).map Call.order,
      call.setup? = none := by
    simp [ordersOf, Command.order?, Call.setup?]
  unfold Player.seek
  dsimp only
  split
  · refine Reply.Tunes.after (Tuned.tick (p := p.startAt now _) ?_ now)
    exact h.keep hsilence rfl rfl id
  · exact h.keep (by simp [ordersOf]) rfl rfl id

/-- **Every turn keeps a player tuned.** -/
theorem take (h : Tuned p calls) {turn : Turn α} (hturn : turn.OfSongs (Distinct ·.channels))
    (now : α) : (p.take now turn).Tunes calls := by
  cases turn with
  | tick => exact h.tick now
  | play => exact h.play now
  | pause => exact h.pause now
  | stop => exact of_stopped (q := p.rewound) h.distinct h.known rfl _
  | seek seconds => exact h.seek now seconds
  | load timeline changes =>
    exact of_stopped (q := (p.load timeline changes).player) hturn
      (fun a ha => Sounds.isSome_planned ha changes) rfl _
  | dispose => exact of_stopped (q := p.rewound) h.distinct h.known rfl _
  | setVolume track volume => exact h.setSound track _
  | setSound track change => exact h.setSound track change

end Tuned

/-! ## On a stage -/

namespace Stage

variable [Scalar α]

/-- The player is tuned to what was called. -/
def Tuned (s : Stage (Observer α) α) : Prop := Playback.Tuned s.player s.host.calls

theorem persists_tuned :
    Persists (Distinct ·.channels) fun s : Stage (Observer α) α => s.Tuned where
  take {s} turn h hturn := by
    have hcalls : (s.carryOut (s.player.take s.time turn)).host.calls
        = s.host.calls ++ (ordersOf (s.player.take s.time turn).commands).map .order :=
      congrArg Seen.calls (seen_carryOut s _)
    unfold Tuned
    rw [hcalls]
    exact Playback.Tuned.take h hturn s.time
  tell h := h.keep (by simp [Call.setup?]) rfl rfl id
  say _ _ h := h
  listen _ h := h
  ring _ h := h
  deliver _ _ h := h
  wait _ h := h

/-- The sound of a track that is unknown cannot be changed. -/
theorem act_setSound_of_unknown (s : Stage (Observer α) α) {track : String}
    (hunknown : s.player.sounds.get? track = none ∨
      ∀ a ∈ s.player.timeline.channels, a.track ≠ track) (change : SoundChange α) :
    s.act (.setSound track change) = s := by
  have hnothing : s.player.setSound track change = ⟨s.player, [], false⟩ := by
    unfold Player.setSound
    split
    · next sound a hsound ha =>
      have htrack : a.track = track := by simpa using List.find?_some ha
      rcases hunknown with hnone | hnone
      · exact absurd (hsound.symm.trans hnone) (Option.some_ne_none sound)
      · exact absurd htrack (hnone a (List.mem_of_find?_eq_some ha))
    · rfl
  change s.settle (s.player.setSound track change) = s
  rw [hnothing]
  rfl

/-- The sound of a track is changed in the player and on its channel, and that is all. -/
theorem act_setSound_of_known (s : Stage (Observer α) α) {a : Assignment α} {sound : Sound α}
    (ha : s.player.timeline.channels.find? (·.track == a.track) = some a)
    (hsound : s.player.sounds.get? a.track = some sound) (change : SoundChange α) :
    s.act (.setSound a.track change)
      = { s.perform (.order (.setup ⟨a.channel, sound.change change⟩)) with
          player := { s.player with
            sounds := s.player.sounds.put a.track (sound.change change) } } := by
  change s.settle (s.player.setSound a.track change) = _
  unfold Player.setSound
  rw [hsound, ha]
  rfl

end Stage

/-- **The synthesizer always has the current sounds.** A player with an observer, of any clock and
with any listener, is put through any incidents, with songs whose channel plans give each entry a
name and a channel of its own. Wherever it plays or has paused, the last setup that was received for
the channel of a track carries the sound that the track has now. To change the sound of a track that
is unknown does nothing at all; otherwise the track has the changed sound, its channel receives it,
and no other sound changes, nothing else of the player, neither its loop nor the clock, and nothing
else that there is to see. -/
theorem sounds_received [Scalar α] (shows : α → α) (now lookahead period : α)
    (timeline : Timeline α) (changes : List (String × SoundChange α)) (listener : Listener)
    (incidents : List (Incident α)) (hsong : Distinct timeline.channels)
    (hincidents : ∀ i ∈ incidents, i.OfSongs (Distinct ·.channels)) :
    let s := incidents.foldl Stage.undergo
      (Stage.observed shows now lookahead period timeline changes listener)
    (s.player.mode ≠ .stopped → ∀ a ∈ s.player.timeline.channels, ∃ sound,
      s.player.sounds.get? a.track = some sound ∧
        lastSetup? a.channel s.host.calls = some ⟨a.channel, sound⟩) ∧
      ∀ track change,
        (s.player.sounds.get? track = none ∨
            (∀ a ∈ s.player.timeline.channels, a.track ≠ track) →
          s.act (.setSound track change) = s) ∧
        ∀ a ∈ s.player.timeline.channels, a.track = track →
          let s' := s.act (.setSound track change)
          ∃ sound sounds, s.player.sounds.get? track = some sound ∧
            sounds.get? track = some (sound.change change) ∧
            (∀ other, other ≠ track → sounds.get? other = s.player.sounds.get? other) ∧
            s'.player = { s.player with sounds } ∧
            s'.loop = s.loop ∧ s'.host.clock = s.host.clock ∧
            s'.seen = s.seen.hear [.setup ⟨a.channel, sound.change change⟩] := by
  intro s
  have htuned : Tuned s.player s.host.calls := by
    refine Stage.persists_tuned.incidents ?_ hincidents
    exact .of_stopped hsong (fun a ha => Sounds.isSome_planned ha changes) rfl []
  refine ⟨fun hstarted a ha => ?_, fun track change =>
    ⟨fun hunknown => s.act_setSound_of_unknown hunknown change, fun a ha htrack => ?_⟩⟩
  · obtain ⟨sound, hsound⟩ := Option.isSome_iff_exists.mp (htuned.known a ha)
    exact ⟨sound, hsound, htuned.current hstarted a ha sound hsound⟩
  · subst htrack
    obtain ⟨sound, hsound⟩ := Option.isSome_iff_exists.mp (htuned.known a ha)
    have hact := s.act_setSound_of_known (htuned.distinct.find?_track ha) hsound change
    intro s'
    rw [show s' = _ from hact]
    refine ⟨sound, s.player.sounds.put a.track (sound.change change), hsound, ?_,
      fun other hother => ?_, rfl, rfl, rfl, rfl⟩
    · rw [Sounds.get?_put, if_pos rfl]
    · rw [Sounds.get?_put, if_neg hother]

/-- A bar of four seconds for two. -/
def duet : Score Rat where
  title := "Duet"
  tempo := 60
  key := "C"
  timeSignature := "4/4"
  sections :=
    [{ name := "A", bars := 1, startBar := 0, key := none, tempo := none
       tracks := [⟨"Flute", "flute", [⟨72, 0, 2, 1⟩], [], 1, 0⟩,
         ⟨"Cello", "cello", [⟨48, 0, 4, 1⟩], [], 1 / 2, 1⟩]
       drums := none }]

/-- One track is changed before playing, the other one in the midst of it, and then playing
pauses. -/
theorem sounds_received_duet :
    let timeline : Timeline Rat := Timeline.ofScore Vocabulary.standard duet
    let incidents : List (Incident Rat) := [.act (.setVolume "Flute" 2), .act .play,
      .act (.setSound "Cello" { program := some 43 }), .act (.jump 1000), .act .pause]
    let s := incidents.foldl Stage.undergo
      (Stage.observed (· / 1000) 0 (1 / 10) 25 timeline
        [("Flute", { volume := some (1 / 4) })] .silent)
    Distinct timeline.channels ∧ s.player.mode = .paused ∧
      lastSetup? 0 s.host.calls = some ⟨0, ⟨73, 0, 1, 0⟩⟩ ∧
      lastSetup? 1 s.host.calls = some ⟨1, ⟨43, 0, 1 / 2, 1⟩⟩ ∧
      s.act (.setSound "Oboe" { volume := some 0 }) = s := by
  intro timeline incidents s
  have hdistinct : Distinct timeline.channels := ⟨by decide +kernel, by decide +kernel⟩
  have hpaused : s.player.mode = .paused := by decide +kernel
  have hchannels : s.player.timeline.channels.map (fun a => (a.track, a.channel))
      = [("Flute", 0), ("Cello", 1)] := by
    decide +kernel
  obtain ⟨hreceived, hchanges⟩ := sounds_received (· / 1000) 0 (1 / 10) 25 timeline
    [("Flute", { volume := some (1 / 4) })] .silent incidents hdistinct
    (by simp [incidents, Incident.OfSongs])
  have hlast (track : String) {channel : Nat} {sound : Sound Rat}
      (hentry : (track, channel) ∈ s.player.timeline.channels.map fun a => (a.track, a.channel))
      (hsound : s.player.sounds.get? track = some sound) :
      lastSetup? channel s.host.calls = some ⟨channel, sound⟩ := by
    obtain ⟨a, ha, heq⟩ := List.mem_map.mp hentry
    obtain ⟨rfl, rfl⟩ := Prod.mk.inj heq
    obtain ⟨current, hcurrent, hsetup⟩ := hreceived (by rw [hpaused]; decide) a ha
    rw [hsetup, Option.some.inj (hcurrent.symm.trans hsound)]
  refine ⟨hdistinct, hpaused, hlast "Flute" (by simp [hchannels]) (by decide +kernel),
    hlast "Cello" (by simp [hchannels]) (by decide +kernel), ?_⟩
  exact (hchanges "Oboe" { volume := some 0 }).1 (.inl (by decide +kernel))

end LeadSheet.Playback
