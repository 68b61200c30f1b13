import LeadSheet.Proofs.Harmony.Integers
import LeadSheet.Sheet.Reading

/-!
# What a section is made of

Nothing in a sheet sets a time directly: a start is built up from the first beat of a bar by adding
durations, or by counting a beat from zero. Here every note, chord and hit of a section that was
read is traced back to that. `Starts v P` says which steps keep a property of starts, and
`readSection_read` that all starts then have it; what else a note or a track holds is given by the
entry it comes from.
-/

namespace LeadSheet.Sheet

variable {α : Type} [Scalar α] {v : Vocabulary α} {P : α → Prop}

/-- The property is kept by every step by which starts are worked out. -/
structure Starts (v : Vocabulary α) (P : α → Prop) : Prop where
  decimal (m places : Nat) : P (Scalar.ofDecimal m places)
  add {x y : α} : P x → P y → P (x + y)
  lasting {x : α} (argument : List Char) : P x → P (x + (Params.ofText v argument).duration)
  sub_one {x : α} : P x → ¬x < (1 : α) → P (x - (1 : α))

/-! ## Melodic patterns -/

/-- The note or chord of an entry, at a start that has the property. -/
def Laid (v : Vocabulary α) (P : α → Prop) (s : Sounding α) : Prop :=
  ∃ word argument start, P start ∧ s = soundingOf v word start (Params.ofText v argument)

theorem laid_of_mem_layOut (h : Starts v P) {start : α} (hstart : P start) :
    ∀ {offset : α} (entries : List Entry), P offset →
      ∀ s ∈ layOut v start offset entries, Laid v P s
  | _, [], _, s, hs => absurd hs List.not_mem_nil
  | offset, e :: rest, hoffset, s, hs => by
    rcases List.mem_cons.mp hs with rfl | hs
    · exact ⟨e.word, e.argument, start + offset, h.add hstart hoffset, rfl⟩
    · exact laid_of_mem_layOut h hstart rest (h.lasting e.argument hoffset) s hs

theorem laid_of_mem_slots (h : Starts v P) {slots : List (List Char)} {s : Sounding α}
    (hs : s ∈ (slots.mapIdx fun index slot => slotSoundings v (barStart index) slot).flatten) :
    Laid v P s := by
  obtain ⟨soundings, hsoundings, hs⟩ := List.mem_flatten.mp hs
  obtain ⟨index, hindex, rfl⟩ := List.mem_mapIdx.mp hsoundings
  unfold slotSoundings at hs
  split at hs
  · exact absurd hs List.not_mem_nil
  · exact laid_of_mem_layOut h (h.decimal _ 0) _ (h.decimal 0 0) s hs

theorem laid_note (h : Starts v P) {pattern : List Char} {n : Note α}
    (hn : n ∈ (PitchedPattern.ofText v pattern).notes) : Laid v P (.note n) := by
  obtain ⟨s, hs, heq⟩ := List.mem_filterMap.mp hn
  cases s with
  | note n' =>
    cases heq
    exact laid_of_mem_slots h hs
  | chord c => cases heq

theorem laid_chord (h : Starts v P) {pattern : List Char} {c : Chord α}
    (hc : c ∈ (PitchedPattern.ofText v pattern).chords) : Laid v P (.chord c) := by
  obtain ⟨s, hs, heq⟩ := List.mem_filterMap.mp hc
  cases s with
  | note n => cases heq
  | chord c' =>
    cases heq
    exact laid_of_mem_slots h hs

/-- A note of a pattern comes from a note token. -/
theorem Laid.note {n : Note α} (h : Laid v P (.note n)) :
    ∃ word token argument start, NoteToken.ofText? v word = some token ∧ P start ∧
      n = ⟨token.pitch, start, (Params.ofText v argument).duration,
        (Params.ofText v argument).velocity⟩ := by
  obtain ⟨word, argument, start, hstart, heq⟩ := h
  unfold soundingOf at heq
  split at heq
  · next token htoken =>
    cases heq
    exact ⟨word, token, argument, start, htoken, hstart, rfl⟩
  · cases heq

/-- A chord of a pattern comes from a chord symbol. -/
theorem Laid.chord {c : Chord α} (h : Laid v P (.chord c)) :
    ∃ word argument start, P start ∧
      c = ⟨(ChordSymbol.ofText v word).root, (ChordSymbol.ofText v word).quality,
        Scalar.ofNat (ChordSymbol.ofText v word).octave, start,
        (Params.ofText v argument).duration, (Params.ofText v argument).velocity⟩ := by
  obtain ⟨word, argument, start, hstart, heq⟩ := h
  unfold soundingOf at heq
  split at heq
  · cases heq
  · cases heq
    exact ⟨word, argument, start, hstart, rfl⟩

/-- Durations and velocities are looked up, unless the entry names none. -/
theorem params_ofText {D V : α → Prop} (hdurations : ∀ entry ∈ v.durations, D entry.2)
    (hdynamics : ∀ entry ∈ v.dynamics, V entry.2) (hone : D 1) (hvelocity : V Default.noteVelocity)
    (argument : List Char) :
    D (Params.ofText v argument).duration ∧ V (Params.ofText v argument).velocity := by
  unfold Params.ofText
  refine List.foldlRecOn (motive := fun p : Params α => D p.duration ∧ V p.velocity) _ _
    ⟨hone, hvelocity⟩ fun p hp code _ => ?_
  unfold Params.apply
  split
  · next duration hlookup =>
    exact ⟨hdurations _ (mem_of_lookup hlookup), hp.2⟩
  · split
    · next velocity hlookup =>
      exact ⟨hp.1, hdynamics _ (mem_of_lookup hlookup)⟩
    · exact hp

/-! ## Drum patterns -/

/-- A hit at a start that has the property, as loud as beats are. -/
def Struck (P : α → Prop) (h : DrumHit α) : Prop :=
  P h.start ∧ ∃ m, h.velocity = Scalar.ofDecimal m 1

theorem beat_of_text (h : Starts v P) {text : List Char} {x : α} (hx : Beats.beat? text = some x) :
    P x := by
  unfold Beats.beat? at hx
  dsimp only at hx
  split at hx
  · split at hx
    · cases hx
    · split at hx
      · cases hx
      · next hge =>
        cases hx
        exact h.sub_one (h.decimal _ _) hge
  · cases hx

theorem mem_of_mapM_eq_some {β γ : Type} {f : β → Option γ} :
    ∀ {xs : List β} {ys : List γ}, xs.mapM f = some ys → ∀ y ∈ ys, ∃ x ∈ xs, f x = some y
  | [], ys, h, y, hy => by
    cases h
    exact absurd hy List.not_mem_nil
  | x :: xs, ys, h, y, hy => by
    rw [List.mapM_cons] at h
    obtain ⟨first, hfirst, h⟩ := Option.bind_eq_some_iff.mp h
    obtain ⟨others, hothers, h⟩ := Option.bind_eq_some_iff.mp h
    cases h
    rcases List.mem_cons.mp hy with rfl | hy
    · exact ⟨x, List.mem_cons_self, hfirst⟩
    · obtain ⟨x', hx', heq⟩ := mem_of_mapM_eq_some hothers y hy
      exact ⟨x', List.mem_cons_of_mem _ hx', heq⟩

theorem mem_evenly (h : Starts v P) {count num places : Nat} {x : α}
    (hx : x ∈ Beats.evenly count num places) : P x := by
  obtain ⟨i, -, rfl⟩ := List.mem_map.mp hx
  exact h.decimal _ _

theorem beats_ofText? (h : Starts v P) {argument : List Char} {beats : Beats α}
    (hbeats : Beats.ofText? argument = some beats) :
    (∀ x ∈ beats.offsets, P x) ∧ ∃ m, beats.velocity = Scalar.ofDecimal m 1 := by
  unfold Beats.ofText? at hbeats
  dsimp only at hbeats
  split at hbeats
  · cases hbeats
    exact ⟨fun x hx => mem_evenly h hx, 7, rfl⟩
  · split at hbeats
    · cases hbeats
      exact ⟨fun x hx => mem_evenly h hx, 6, rfl⟩
    · obtain ⟨offsets, hoffsets, heq⟩ := Option.map_eq_some_iff.mp hbeats
      subst heq
      refine ⟨fun x hx => ?_, 8, rfl⟩
      obtain ⟨text, -, htext⟩ := mem_of_mapM_eq_some hoffsets x hx
      exact beat_of_text h htext

theorem struck_of_mem_hits (h : Starts v P) {pattern : List Char} {hit : DrumHit α}
    (hhit : hit ∈ (DrumPattern.ofText pattern).hits) : Struck P hit := by
  obtain ⟨hits, hhits, hhit⟩ := List.mem_flatten.mp hhit
  obtain ⟨index, hindex, rfl⟩ := List.mem_mapIdx.mp hhits
  unfold slotHits at hhit
  split at hhit
  · exact absurd hhit List.not_mem_nil
  · obtain ⟨e, -, hhit⟩ := List.mem_flatMap.mp hhit
    unfold entryHits at hhit
    split at hhit
    · exact absurd hhit List.not_mem_nil
    · next beats hbeats =>
      obtain ⟨hoffsets, hvelocity⟩ := beats_ofText? h hbeats
      obtain ⟨offset, hoffset, rfl⟩ := List.mem_map.mp hhit
      exact ⟨h.add (h.decimal _ 0) (hoffsets offset hoffset), hvelocity⟩

/-! ## Sections -/

/-- A track as it is read: from the entries of a pattern, and with the default volume and pan. -/
structure ReadTrack (v : Vocabulary α) (P : α → Prop) (t : Track α) : Prop where
  notes : ∀ n ∈ t.notes, Laid v P (.note n)
  chords : ∀ c ∈ t.chords, Laid v P (.chord c)
  volume : t.volume = Default.trackVolume
  pan : t.pan = Default.trackPan

/-- A drum track as it is read. -/
structure ReadDrums (P : α → Prop) (d : DrumTrack α) : Prop where
  hits : ∀ h ∈ d.hits, Struck P h
  volume : d.volume = Default.trackVolume

/-- What the lines of a section have given. -/
structure ReadBody (v : Vocabulary α) (P : α → Prop) (tracks : List (Track α))
    (drums : Option (DrumTrack α)) : Prop where
  tracks : ∀ t ∈ tracks, ReadTrack v P t
  drums : ∀ d ∈ drums, ReadDrums P d

theorem ReadBody.addDrums (h : Starts v P) {body : Body α}
    (hbody : ReadBody v P body.tracks body.drums) (name : String) (bars : Nat)
    (pattern : List Char) :
    ReadBody v P (body.addDrums name bars pattern).tracks
      (body.addDrums name bars pattern).drums := by
  refine ⟨hbody.tracks, fun d hd => ?_⟩
  cases hd
  have hbefore : ReadDrums P
      (body.drums.getD ⟨Default.drumTrackName, [], Default.trackVolume⟩) := by
    cases hdrums : body.drums with
    | none => exact ⟨fun _ hmem => absurd hmem List.not_mem_nil, rfl⟩
    | some d => exact hbody.drums d hdrums
  refine ⟨fun hit hmem => ?_, hbefore.volume⟩
  rcases List.mem_append.mp hmem with hmem | hmem
  · exact hbefore.hits hit hmem
  · exact struck_of_mem_hits h hmem

theorem ReadBody.addTrack (h : Starts v P) {body : Body α}
    (hbody : ReadBody v P body.tracks body.drums) (name : String) (bars : Nat)
    (word pattern : List Char) :
    ReadBody v P (body.addTrack v name bars word pattern).tracks
      (body.addTrack v name bars word pattern).drums := by
  unfold Body.addTrack
  dsimp only
  split
  · exact ⟨hbody.tracks, hbody.drums⟩
  · refine ⟨fun t ht => ?_, hbody.drums⟩
    rcases List.mem_append.mp ht with ht | ht
    · exact hbody.tracks t ht
    · rw [List.mem_singleton.mp ht]
      exact ⟨fun n hn => laid_note h hn, fun c hc => laid_chord h hc, rfl, rfl⟩

theorem ReadBody.addLine (h : Starts v P) {body : Body α}
    (hbody : ReadBody v P body.tracks body.drums) (name : String) (bars : Nat) (line : Line) :
    ReadBody v P (body.addLine v name bars line).tracks (body.addLine v name bars line).drums := by
  cases line with
  | drums pattern => exact hbody.addDrums h name bars pattern
  | instrument word pattern => exact hbody.addTrack h name bars word pattern
  | header field => exact hbody
  | unrecognized text => exact hbody

/-- A section as it is read: of at least one bar, and in the key and tempo of the song. -/
structure ReadSection (v : Vocabulary α) (P : α → Prop) (key : String) (tempo : α) (s : Section α) :
    Prop extends ReadBody v P s.tracks s.drums where
  bars : ∃ n, 0 < n ∧ s.bars = Scalar.ofNat n
  key : s.key = some key
  tempo : s.tempo = some tempo

theorem counted_pos (digits : Option (List Char)) {substitute : Nat} (hpos : 0 < substitute) :
    0 < (counted digits substitute).value := by
  unfold counted
  split
  · exact hpos
  · dsimp only
    split
    · exact hpos
    · next hne => exact Nat.pos_of_ne_zero hne

/-- **Whatever a piece of text holds, it is read as a section.** -/
theorem readSection_read (h : Starts v P) (key : String) (tempo : α) (piece : List Char) :
    ReadSection v P key tempo (readSection v key tempo piece).read where
  toReadBody := by
    unfold readSection
    refine List.foldlRecOn (motive := fun body : Body α => ReadBody v P body.tracks body.drums) _ _
      ⟨fun _ hmem => absurd hmem List.not_mem_nil, fun _ hmem => nomatch hmem⟩
      fun body hbody line _ => hbody.addLine h _ _ line
  bars := ⟨_, counted_pos _ (by decide), rfl⟩
  key := rfl
  tempo := rfl

end LeadSheet.Sheet
