import LeadSheet.Device.Basic
import LeadSheet.Proofs.Midi.Message
import LeadSheet.Proofs.Playback.Clock

/-!
# When a device is quiet

A device that was told to fall silent has no message waiting, and every note that it started was
followed by the message that silences its channel (`Quiet`). What makes `cancelAll` bring that about
is that a message never waits without the device knowing the number of its timer, and that all
messages went to the one port that is still open (`Tended`).

Of all orders only a `schedule` can end the quiet. So there are two lemmas for each order, one that
the device stays tended and one that it stays, or falls, quiet.
-/

namespace LeadSheet.Device

open Playback (Alarm Call Clock Host Level Order Port Timer)

variable {σ α : Type}

/-! ## Notes among the calls -/

/-- The start of a note was sent to a port, on a channel. -/
def StartsNote (port : Port) (channel : Int) (call : Call α) : Prop :=
  ∃ data, call = .send port (Midi.status 0x90 channel :: data)

/-- The call that silences a channel. -/
def silencing (port : Port) (channel : Int) : Call α :=
  .send port (Midi.controlChange channel Midi.allNotesOffController 0)

/-- Wherever a note was started, its channel was silenced afterwards. -/
def Hushed (calls : List (Call α)) : Prop :=
  ∀ before call after port channel, calls = before ++ call :: after →
    StartsNote port channel call → silencing port channel ∈ after

/-- The calls that close a port, if there is one. -/
def closing (output : Option Port) : List (Call α) := output.toList.map .close

/-- Closing sends nothing. -/
theorem ne_send_of_mem_closing {output : Option Port} {call : Call α}
    (hmem : call ∈ closing output) : ∀ port message, call ≠ .send port message := by
  obtain ⟨port, -, rfl⟩ := List.mem_map.mp hmem
  simp

/-- A note was started or ended, on some channel of some port. -/
def SoundsNote (call : Call α) : Prop :=
  ∃ port message, Midi.isNote message = true ∧ call = .send port message

theorem StartsNote.soundsNote {port : Port} {channel : Int} {call : Call α}
    (h : StartsNote port channel call) : SoundsNote call := by
  obtain ⟨data, rfl⟩ := h
  exact ⟨port, _, Midi.isNote_status channel data (by omega) (by omega) (by omega), rfl⟩

theorem not_soundsNote_send {message : List UInt8} (hmessage : Midi.isNote message = false)
    (port : Port) : ¬SoundsNote (α := α) (.send port message) := by
  rintro ⟨other, message', hnote, h⟩
  obtain ⟨-, rfl⟩ := Call.send.inj h
  exact Bool.false_ne_true (hmessage.symm.trans hnote)

/-- The messages that give silence, and those that give a channel its sound, start no note and end
none. -/
theorem of_mem_silence {message : List UInt8} (hmem : message ∈ silence) :
    Midi.IsChannelMessage message ∧ Midi.isNote message = false := by
  obtain ⟨number, -, rfl⟩ := List.mem_map.mp hmem
  exact ⟨Midi.isChannelMessage_controlChange .., Midi.isNote_controlChange ..⟩

theorem of_mem_setupMessages [Scalar α] {setup : Playback.ChannelSetup α} {message : List UInt8}
    (hmem : message ∈ setupMessages setup) :
    Midi.IsChannelMessage message ∧ Midi.isNote message = false := by
  have hcontrol (channel controller value : Int) :
      Midi.IsChannelMessage (Midi.controlChange channel controller value) ∧
        Midi.isNote (Midi.controlChange channel controller value) = false :=
    ⟨Midi.isChannelMessage_controlChange .., Midi.isNote_controlChange ..⟩
  rcases List.mem_append.mp hmem with hbank | hsound
  · split at hbank
    · obtain rfl := List.mem_singleton.mp hbank
      exact hcontrol _ _ _
    · cases hbank
  · simp only [List.mem_cons, List.not_mem_nil, or_false] at hsound
    obtain rfl | rfl | rfl := hsound
    · exact ⟨Midi.isChannelMessage_programChange .., Midi.isNote_programChange ..⟩
    · exact hcontrol _ _ _
    · exact hcontrol _ _ _

/-- A call that is not among the last ones stands before them. -/
theorem exists_of_append_eq {calls more before after : List (Call α)} {call : Call α}
    (h : calls ++ more = before ++ call :: after) (hmore : call ∉ more) :
    ∃ rest, calls = before ++ call :: rest ∧ after = rest ++ more := by
  obtain ⟨rest, rfl, hrest⟩ | ⟨rest, rfl, hrest⟩ := List.append_eq_append_iff.mp h
  · -- the cut lies behind the earlier calls, which leaves the call among the last ones
    exact absurd (by rw [hrest]; simp) hmore
  · cases rest with
    | nil => exact absurd (by rw [← List.nil_append more, ← hrest]; simp) hmore
    | cons first rest =>
      obtain ⟨rfl, hafter⟩ := List.cons.inj hrest
      exact ⟨rest, rfl, hafter⟩

/-- Calls that start no note leave silenced what was silenced. -/
theorem Hushed.append {calls more : List (Call α)} (h : Hushed calls)
    (hmore : ∀ call ∈ more, ∀ port channel, ¬StartsNote port channel call) :
    Hushed (calls ++ more) := by
  intro before call after port channel hsplit hstarts
  obtain ⟨rest, hcalls, rfl⟩ :=
    exists_of_append_eq hsplit fun hmem => hmore call hmem port channel hstarts
  exact List.mem_append_left _ (h before call rest port channel hcalls hstarts)

theorem silencing_mem_silence (port : Port) (channel : Int) :
    silencing port channel ∈ silence.map (Call.send (α := α) port) := by
  refine List.mem_map_of_mem (List.mem_map.mpr ⟨(channel % 16).toNat, ?_, ?_⟩)
  · rw [List.mem_range, channelCount]
    omega
  · -- a channel and its low four bits have the same status byte
    have hlow : ((channel % 16).toNat : Int) = channel % 16 := by omega
    rw [hlow, Midi.controlChange, Midi.controlChange, Midi.status_emod]

/-- Behind the start of a note that came before all channels of a port were silenced, its channel
is. -/
theorem of_append_silence {calls before after : List (Call α)} {port other : Port} {channel : Int}
    {call : Call α} (hsplit : calls ++ silence.map (.send port) = before ++ call :: after)
    (hstarts : StartsNote other channel call) :
    call ∈ calls ∧ silencing port channel ∈ after := by
  have hlast : call ∉ silence.map (Call.send port) := by
    intro hmem
    obtain ⟨message, hmessage, rfl⟩ := List.mem_map.mp hmem
    exact not_soundsNote_send (of_mem_silence hmessage).2 port hstarts.soundsNote
  -- so the start of the note is an earlier call, and all of the silencing comes behind it
  obtain ⟨rest, rfl, rfl⟩ := exists_of_append_eq hsplit hlast
  exact ⟨List.mem_append_right _ List.mem_cons_self,
    List.mem_append_right _ (silencing_mem_silence _ _)⟩

/-- Once every channel of a port was silenced, nothing that was sent there sounds on. -/
theorem hushed_append_silence {calls : List (Call α)} {port : Port}
    (hport : ∀ other message, .send other message ∈ calls → other = port) :
    Hushed (calls ++ silence.map (.send port)) := by
  intro before call after other channel hsplit hstarts
  obtain ⟨hmem, hsilenced⟩ := of_append_silence hsplit hstarts
  obtain ⟨data, rfl⟩ := hstarts
  obtain rfl : other = port := hport other _ hmem
  exact hsilenced

/-! ## Quiet, and what leads there -/

/-- No message waits, and no note sounds. -/
structure Quiet (h : Host (Device σ α) α) : Prop where
  pending : h.synth.pending = []
  noMessage : ∀ timer ∈ h.clock.timers, ∀ bytes, timer.action ≠ .message bytes
  hushed : Hushed h.calls

/-- Whatever waits is known to wait, and there is one port for everything. -/
structure Tended (port : Port) (h : Host (Device σ α) α) : Prop where
  waiting : ∀ timer ∈ h.clock.timers, ∀ bytes, timer.action = .message bytes →
    timer.number ∈ h.synth.pending ∧ timer.period = none
  port_eq : ∀ other message, .send other message ∈ h.calls → other = port
  output_eq : h.synth.disposed = false → h.synth.output = some port
  quiet : h.synth.disposed = true → Quiet h

section Clock

variable {h : Host (Device σ α) α} {port : Port} {clock : Clock Alarm α}

/-- Another clock does no harm, as long as no message is new on it. -/
theorem Quiet.withClock (hq : Quiet h)
    (hold : ∀ timer ∈ clock.timers, ∀ bytes, timer.action = .message bytes →
      timer ∈ h.clock.timers) : Quiet { h with clock } where
  pending := hq.pending
  noMessage timer hmem bytes haction :=
    hq.noMessage timer (hold timer hmem bytes haction) bytes haction
  hushed := hq.hushed

theorem Tended.withClock (ht : Tended port h)
    (hold : ∀ timer ∈ clock.timers, ∀ bytes, timer.action = .message bytes →
      timer ∈ h.clock.timers) : Tended port { h with clock } where
  waiting timer hmem bytes haction :=
    ht.waiting timer (hold timer hmem bytes haction) bytes haction
  port_eq := ht.port_eq
  output_eq := ht.output_eq
  quiet hdisposed := (ht.quiet hdisposed).withClock hold

end Clock

/-- A call that sends nothing changes neither. -/
theorem Quiet.record {h : Host (Device σ α) α} (hq : Quiet h) {call : Call α}
    (hcall : ∀ port channel, ¬StartsNote port channel call) : Quiet (h.record call) where
  pending := hq.pending
  noMessage := hq.noMessage
  hushed := hq.hushed.append fun _ hmem => by
    obtain rfl := List.mem_singleton.mp hmem
    exact hcall

theorem Tended.record {h : Host (Device σ α) α} {port : Port} (ht : Tended port h)
    {call : Call α} (hcall : ∀ other message, call ≠ .send other message) :
    Tended port (h.record call) where
  waiting := ht.waiting
  port_eq other message hmem := by
    rcases List.mem_append.mp hmem with hold | hnew
    · exact ht.port_eq other message hold
    · exact absurd (List.mem_singleton.mp hnew).symm (hcall other message)
  output_eq := ht.output_eq
  quiet hdisposed := (ht.quiet hdisposed).record fun other _ ⟨_, hsend⟩ => hcall other _ hsend

theorem Quiet.say {h : Host (Device σ α) α} (hq : Quiet h) (level : Level) (text : String) :
    Quiet (h.say level text) :=
  ⟨hq.pending, hq.noMessage, hq.hushed⟩

theorem Tended.say {h : Host (Device σ α) α} {port : Port} (ht : Tended port h) (level : Level)
    (text : String) : Tended port (h.say level text) :=
  ⟨ht.waiting, ht.port_eq, ht.output_eq, fun hdisposed => (ht.quiet hdisposed).say level text⟩

/-! ## Sending -/

section Send

variable (text : String) (fault? : Option Playback.Fault) (h : Host (Device σ α) α)

@[simp] theorem clock_warn : (warn text fault? h).clock = h.clock := by cases fault? <;> rfl

@[simp] theorem calls_warn : (warn text fault? h).calls = h.calls := by cases fault? <;> rfl

@[simp] theorem synth_warn : (warn text fault? h).synth = h.synth := by cases fault? <;> rfl

variable [Hardware σ] (message : List UInt8) (messages : List (List UInt8))

@[simp] theorem clock_send : (send message h).clock = h.clock := by
  unfold send
  split
  · rfl
  · exact clock_warn ..

/-- Of the device, sending changes nothing but the hardware. -/
theorem synth_send : ∃ hardware, (send message h).synth = { h.synth with hardware } := by
  unfold send
  split
  · exact ⟨_, rfl⟩
  · exact ⟨_, synth_warn ..⟩

@[simp] theorem clock_sendAll : (sendAll messages h).clock = h.clock := by
  induction messages generalizing h with
  | nil => rfl
  | cons message rest ih => exact (ih _).trans (clock_send h message)

theorem synth_sendAll : ∃ hardware, (sendAll messages h).synth = { h.synth with hardware } := by
  induction messages generalizing h with
  | nil => exact ⟨_, rfl⟩
  | cons message rest ih =>
    obtain ⟨hardware, hsent⟩ := synth_send h message
    obtain ⟨hardware', hrest⟩ := ih (send message h)
    rw [hsent] at hrest
    exact ⟨hardware', hrest⟩

variable {h} {port : Port}

theorem calls_send (hport : h.synth.output = some port) :
    (send message h).calls = h.calls ++ [.send port message] := by
  unfold send
  split
  · next hnone => exact absurd (hnone.symm.trans hport) (by simp)
  · next other hother =>
    obtain rfl : other = port := Option.some.inj (hother.symm.trans hport)
    exact calls_warn ..

theorem calls_sendAll (hport : h.synth.output = some port) :
    (sendAll messages h).calls = h.calls ++ messages.map (.send port) := by
  induction messages generalizing h with
  | nil => exact (List.append_nil _).symm
  | cons message rest ih =>
    obtain ⟨hardware, hsent⟩ := synth_send h message
    have hrest := ih (h := send message h) (by rw [hsent, hport])
    rw [calls_send message hport, List.append_assoc] at hrest
    exact hrest

/-- Messages that start no note keep the quiet. -/
theorem Quiet.sendAll (hq : Quiet h) (hport : h.synth.output = some port)
    (hmessages : ∀ message ∈ messages, ∀ other channel,
      ¬StartsNote (α := α) other channel (.send port message)) :
    Quiet (sendAll messages h) where
  pending := by
    obtain ⟨hardware, hsent⟩ := synth_sendAll h messages
    rw [hsent, hq.pending]
  noMessage := by
    rw [clock_sendAll]
    exact hq.noMessage
  hushed := by
    rw [calls_sendAll messages hport]
    refine hq.hushed.append fun call hmem => ?_
    obtain ⟨message, hmessage, rfl⟩ := List.mem_map.mp hmem
    exact hmessages message hmessage

theorem Tended.sendAll (ht : Tended port h) (halive : h.synth.disposed = false) :
    Tended port (sendAll messages h) := by
  obtain ⟨hardware, hsent⟩ := synth_sendAll h messages
  exact {
    waiting := by
      rw [clock_sendAll, hsent]
      exact ht.waiting
    port_eq := fun other message hmem => by
      rw [calls_sendAll messages (ht.output_eq halive)] at hmem
      rcases List.mem_append.mp hmem with hold | hnew
      · exact ht.port_eq other message hold
      · obtain ⟨_, -, hsend⟩ := List.mem_map.mp hnew
        exact (Call.send.inj hsend).1.symm
    output_eq := fun _ => by rw [hsent, ht.output_eq halive]
    quiet := fun hdisposed => by
      rw [hsent, halive] at hdisposed
      cases hdisposed }

end Send

/-! ## Falling silent -/

/-- The host without the messages that wait. -/
def dropPending (h : Host (Device σ α) α) : Host (Device σ α) α :=
  update { h with clock := h.synth.pending.foldl Clock.cancel h.clock } fun d =>
    { d with pending := [] }

section Silence

variable [Hardware σ] {h : Host (Device σ α) α} {port : Port}

theorem cancelAll_of_alive (halive : h.synth.disposed = false) :
    cancelAll h = sendAll silence (dropPending h) := by
  rw [cancelAll, if_neg (by simp [halive])]
  rfl

omit [Hardware σ] in
/-- A message that waits is on the list of those that are dropped. -/
theorem Tended.noMessage_dropPending (ht : Tended port h) :
    ∀ timer ∈ (dropPending h).clock.timers, ∀ bytes, timer.action ≠ .message bytes := by
  intro timer hmem bytes haction
  obtain ⟨hold, hkept⟩ := Clock.mem_foldl_cancel.mp hmem
  exact hkept (ht.waiting timer hold bytes haction).1

omit [Hardware σ] in
theorem Tended.dropPending (ht : Tended port h) (halive : h.synth.disposed = false) :
    Tended port (dropPending h) where
  waiting timer hmem bytes haction :=
    absurd haction (ht.noMessage_dropPending timer hmem bytes)
  port_eq := ht.port_eq
  output_eq := ht.output_eq
  quiet hdisposed := absurd (halive.symm.trans hdisposed) Bool.false_ne_true

/-- **Whatever was going on, `cancelAll` brings quiet.** -/
theorem Tended.quiet_cancelAll (ht : Tended port h) : Quiet (cancelAll h) := by
  cases halive : h.synth.disposed with
  | true =>
    rw [cancelAll, if_pos halive]
    exact ht.quiet halive
  | false =>
    rw [cancelAll_of_alive halive]
    obtain ⟨hardware, hsent⟩ := synth_sendAll (Device.dropPending h) silence
    exact {
      pending := by rw [hsent]; rfl
      noMessage := by
        rw [clock_sendAll]
        exact ht.noMessage_dropPending
      hushed := by
        rw [calls_sendAll silence (h := Device.dropPending h) (ht.output_eq halive)]
        exact hushed_append_silence ht.port_eq }

theorem Tended.cancelAll (ht : Tended port h) : Tended port (cancelAll h) := by
  cases halive : h.synth.disposed with
  | true => rwa [Device.cancelAll, if_pos halive]
  | false =>
    rw [cancelAll_of_alive halive]
    exact (ht.dropPending halive).sendAll silence halive

/-! ## Closing the port -/

theorem clock_closeOutput : (closeOutput h).clock = h.clock := by
  unfold closeOutput
  split
  · rfl
  · exact clock_warn ..

/-- Of the device, closing changes nothing but the hardware and the output. -/
theorem synth_closeOutput : ∃ hardware output selected,
    (closeOutput h).synth = { h.synth with hardware, output, selected } := by
  unfold closeOutput
  split
  · exact ⟨_, _, _, rfl⟩
  · simp only [update, synth_warn]
    exact ⟨_, none, none, rfl⟩

theorem calls_closeOutput : (closeOutput h).calls = h.calls ++ closing h.synth.output := by
  unfold closeOutput
  split
  · next hnone => simp [hnone, closing]
  · next port hport =>
    rw [hport]
    exact calls_warn ..

/-! ## Orders -/

theorem Tended.dispose (ht : Tended port h) : Tended port (dispose h) ∧ Quiet (dispose h) := by
  cases halive : h.synth.disposed with
  | true =>
    rw [Device.dispose, if_pos halive]
    exact ⟨ht, ht.quiet halive⟩
  | false =>
    rw [Device.dispose, if_neg (by simp [halive])]
    -- the port is closed behind the silencing, and closing it sends nothing
    have hcalls := calls_closeOutput (h := Device.cancelAll h)
    obtain ⟨hardware, output, selected, hclosed⟩ := synth_closeOutput (h := Device.cancelAll h)
    have hstill := ht.quiet_cancelAll
    have hquiet : Quiet (update (closeOutput (Device.cancelAll h)) fun d =>
        { d with engine := none, disposed := true }) := {
      pending := by
        simp only [update, hclosed]
        exact hstill.pending
      noMessage := by
        simp only [update, clock_closeOutput]
        exact hstill.noMessage
      hushed := by
        simp only [update, hcalls]
        exact hstill.hushed.append fun call hmem other _ ⟨_, hsend⟩ =>
          ne_send_of_mem_closing hmem other _ hsend }
    refine ⟨⟨fun timer hmem bytes haction => ?_, fun other message hmem => ?_, ?_, fun _ => hquiet⟩,
      hquiet⟩
    · exact absurd haction (hquiet.noMessage timer hmem bytes)
    · simp only [update, hcalls, List.mem_append] at hmem
      rcases hmem with hold | hnew
      · exact ht.cancelAll.port_eq other message hold
      · exact absurd rfl (ne_send_of_mem_closing hnew other message)
    · intro hdisposed
      cases hdisposed

/-- A message that is sent does not wait any more. -/
theorem Tended.deliver (ht : Tended port h) {number : Nat} (message : List UInt8)
    (hgone : ∀ timer ∈ h.clock.timers, ∀ bytes, timer.action = .message bytes →
      timer.number ≠ number) : Tended port (deliver number message h) := by
  have htaken : Tended port (update h fun d =>
      { d with pending := d.pending.filter (· ≠ number) }) := {
    waiting := fun timer hmem bytes haction => by
      obtain ⟨hpending, hperiod⟩ := ht.waiting timer hmem bytes haction
      -- the number that is taken off the list is no other message's
      exact ⟨List.mem_filter.mpr
        ⟨hpending, by simpa using hgone timer hmem bytes haction⟩, hperiod⟩
    port_eq := ht.port_eq
    output_eq := ht.output_eq
    quiet := fun hdisposed => by
      have hquiet := ht.quiet hdisposed
      exact ⟨by simp [update, hquiet.pending], hquiet.noMessage, hquiet.hushed⟩ }
  unfold Device.deliver
  dsimp only
  split
  · exact htaken
  · next halive => exact htaken.sendAll [message] (Bool.eq_false_iff.mpr halive)

theorem clock_deliver {number : Nat} {message : List UInt8} :
    (deliver number message h).clock = h.clock := by
  unfold deliver
  dsimp only
  split
  · rfl
  · exact clock_send _ _

variable [Scalar α]

omit [Hardware σ] in
/-- A message that waits behind a timer that ran is another one, and as it was. -/
theorem Tended.of_mem_fire (ht : Tended port h) {timer left : Timer Alarm α} {bytes : List UInt8}
    (hmem : left ∈ (h.clock.fire timer).timers) (haction : left.action = .message bytes) :
    left ∈ h.clock.timers ∧ left.number ≠ timer.number := by
  rcases Clock.mem_fire hmem with hother | ⟨ran, hran, -, hagain⟩
  · exact hother
  · -- messages do not repeat
    obtain ⟨-, hkept, hrepeats⟩ := Timer.of_again hagain
    exact absurd (ht.waiting ran hran bytes (hkept.symm.trans haction)).2 hrepeats

omit [Hardware σ] in
/-- A message that waits is known to wait. -/
theorem Tended.schedule (ht : Tended port h) (event : TimedEvent α) (seconds : α) :
    Tended port (schedule event seconds h) := by
  unfold Device.schedule
  split
  · exact ht
  · next hopen =>
    refine ⟨fun timer hmem bytes haction => ?_, ht.port_eq, ht.output_eq,
      fun hdisposed => absurd (Bool.or_eq_true_iff.mpr (.inl hdisposed)) hopen⟩
    rcases Clock.mem_start hmem with hold | ⟨hnumber, hperiod, -⟩
    · obtain ⟨hpending, hperiod⟩ := ht.waiting timer hold bytes haction
      exact ⟨List.mem_append_left _ hpending, hperiod⟩
    · exact ⟨List.mem_append_right _ (by simp [hnumber]), hperiod⟩

theorem Tended.setup (ht : Tended port h) (setup : Playback.ChannelSetup α) :
    Tended port (Device.setup setup h) := by
  unfold Device.setup
  split
  · exact ht
  · next halive => exact ht.sendAll _ (Bool.eq_false_iff.mpr halive)

theorem Tended.quiet_setup (ht : Tended port h) (hq : Quiet h)
    (setup : Playback.ChannelSetup α) : Quiet (Device.setup setup h) := by
  unfold Device.setup
  split
  · exact hq
  · next halive =>
    exact hq.sendAll _ (ht.output_eq (Bool.eq_false_iff.mpr halive))
      fun _ hmem _ _ hstarts =>
        not_soundsNote_send (of_mem_setupMessages hmem).2 port hstarts.soundsNote

/-- **Every order leaves the device tended.** -/
theorem Tended.obey (ht : Tended port h) (order : Order α) : Tended port (obey order h) := by
  cases order with
  | setup setup => exact ht.setup setup
  | schedule event seconds => exact ht.schedule event seconds
  | cancelAll => exact ht.cancelAll
  | dispose => exact ht.dispose.1

/-! ## The timers of others -/

omit [Scalar α] in
theorem mem_of_mem_cancelAll {timer : Timer Alarm α} (hmem : timer ∈ (cancelAll h).clock.timers) :
    timer ∈ h.clock.timers := by
  cases halive : h.synth.disposed with
  | true => rwa [cancelAll, if_pos halive] at hmem
  | false =>
    rw [cancelAll_of_alive halive, clock_sendAll] at hmem
    exact (Clock.mem_foldl_cancel.mp hmem).1

/-- No order starts a timer of another kind than those of messages. -/
theorem mem_of_mem_obey {order : Order α} {timer : Timer Alarm α}
    (hmem : timer ∈ (obey order h).clock.timers) (haction : timer.action = .loop) :
    timer ∈ h.clock.timers := by
  cases order with
  | setup setup =>
    unfold obey Device.setup at hmem
    dsimp only at hmem
    split at hmem
    · exact hmem
    · rwa [clock_sendAll] at hmem
  | schedule event seconds =>
    unfold obey schedule at hmem
    dsimp only at hmem
    split at hmem
    · exact hmem
    · rcases Clock.mem_start hmem with hold | ⟨-, -, hmessage⟩
      · exact hold
      · cases haction.symm.trans hmessage
  | cancelAll => exact mem_of_mem_cancelAll hmem
  | dispose =>
    unfold obey Device.dispose at hmem
    dsimp only at hmem
    split at hmem
    · exact hmem
    · refine mem_of_mem_cancelAll ?_
      rw [← clock_closeOutput]
      exact hmem

end Silence

end LeadSheet.Device
