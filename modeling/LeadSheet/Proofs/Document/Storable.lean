import LeadSheet.Document.Read
import LeadSheet.Document.Write
import LeadSheet.Proofs.Number.Doubles

/-!
# Which scores a document holds

A document has room for finite numbers only, and asks for a positive one where it means a length or
a tempo. These are conditions on the numbers of a score, wherever they stand in it; so the score is
laid out as two lists, its `numbers` and among them its `lengths`, and `Storable` says what is asked
of both.

`Reads` and `Gives` are the two halves of what is shown of each reader, one for what the writer
wrote and one for any value at all. Both go through `>>=`, which is how the readers are put
together.
-/

namespace LeadSheet

variable {α : Type}

/-! ## The numbers of a score -/

def Note.numbers (n : Note α) : List α := [n.pitch, n.start, n.duration, n.velocity]

def Chord.numbers (c : Chord α) : List α := [c.octave, c.start, c.duration, c.velocity]

def Track.numbers (t : Track α) : List α :=
  t.notes.flatMap Note.numbers ++ t.chords.flatMap Chord.numbers ++ [t.volume, t.pan]

def DrumHit.numbers (h : DrumHit α) : List α := [h.start, h.velocity]

def DrumTrack.numbers (d : DrumTrack α) : List α := d.hits.flatMap DrumHit.numbers ++ [d.volume]

def Section.numbers (s : Section α) : List α :=
  s.bars :: s.startBar :: s.tempo.toList ++ s.tracks.flatMap Track.numbers
    ++ s.drums.toList.flatMap DrumTrack.numbers

/-- All numbers of a score. -/
def Score.numbers (s : Score α) : List α := s.tempo :: s.sections.flatMap Section.numbers

def Track.lengths (t : Track α) : List α := t.notes.map (·.duration) ++ t.chords.map (·.duration)

def Section.lengths (s : Section α) : List α :=
  s.bars :: s.tempo.toList ++ s.tracks.flatMap Track.lengths

/-- The numbers of a score that are a tempo, a number of bars or a duration. -/
def Score.lengths (s : Score α) : List α := s.tempo :: s.sections.flatMap Section.lengths

section

variable {P : α → Prop}

theorem Note.forall_numbers {n : Note α} :
    (∀ x ∈ n.numbers, P x) ↔ P n.pitch ∧ P n.start ∧ P n.duration ∧ P n.velocity := by
  simp [Note.numbers]

theorem Chord.forall_numbers {c : Chord α} :
    (∀ x ∈ c.numbers, P x) ↔ P c.octave ∧ P c.start ∧ P c.duration ∧ P c.velocity := by
  simp [Chord.numbers]

theorem Track.forall_numbers {t : Track α} : (∀ x ∈ t.numbers, P x) ↔
    (∀ n ∈ t.notes, ∀ x ∈ n.numbers, P x) ∧ (∀ c ∈ t.chords, ∀ x ∈ c.numbers, P x) ∧
      P t.volume ∧ P t.pan := by
  simp only [Track.numbers, List.forall_mem_append, List.forall_mem_flatMap, List.forall_mem_cons]
  simp [and_assoc]

theorem DrumHit.forall_numbers {h : DrumHit α} :
    (∀ x ∈ h.numbers, P x) ↔ P h.start ∧ P h.velocity := by
  simp [DrumHit.numbers]

theorem DrumTrack.forall_numbers {d : DrumTrack α} :
    (∀ x ∈ d.numbers, P x) ↔ (∀ h ∈ d.hits, ∀ x ∈ h.numbers, P x) ∧ P d.volume := by
  simp only [DrumTrack.numbers, List.forall_mem_append, List.forall_mem_flatMap]
  simp

theorem Section.forall_numbers {s : Section α} : (∀ x ∈ s.numbers, P x) ↔
    P s.bars ∧ P s.startBar ∧ (∀ x ∈ s.tempo, P x) ∧ (∀ t ∈ s.tracks, ∀ x ∈ t.numbers, P x) ∧
      ∀ d ∈ s.drums, ∀ x ∈ d.numbers, P x := by
  simp only [Section.numbers, List.forall_mem_append, List.forall_mem_flatMap, List.forall_mem_cons]
  simp [and_assoc]

theorem Score.forall_numbers {s : Score α} :
    (∀ x ∈ s.numbers, P x) ↔ P s.tempo ∧ ∀ part ∈ s.sections, ∀ x ∈ part.numbers, P x := by
  simp only [Score.numbers, List.forall_mem_flatMap, List.forall_mem_cons]

theorem Track.forall_lengths {t : Track α} : (∀ x ∈ t.lengths, P x) ↔
    (∀ n ∈ t.notes, P n.duration) ∧ ∀ c ∈ t.chords, P c.duration := by
  simp only [Track.lengths, List.forall_mem_append, List.forall_mem_map]

theorem Section.forall_lengths {s : Section α} : (∀ x ∈ s.lengths, P x) ↔
    P s.bars ∧ (∀ x ∈ s.tempo, P x) ∧ ∀ t ∈ s.tracks, ∀ x ∈ t.lengths, P x := by
  simp only [Section.lengths, List.forall_mem_append, List.forall_mem_flatMap, List.forall_mem_cons]
  simp [and_assoc]

theorem Score.forall_lengths {s : Score α} :
    (∀ x ∈ s.lengths, P x) ↔ P s.tempo ∧ ∀ part ∈ s.sections, ∀ x ∈ part.lengths, P x := by
  simp only [Score.lengths, List.forall_mem_flatMap, List.forall_mem_cons]

end

namespace Document

/-- What a document asks of the numbers of a score and of those among them that are lengths. -/
structure Storable (numbers lengths : List Float) : Prop where
  finite : ∀ x ∈ numbers, Scalar.isFinite x = true
  positive : ∀ x ∈ lengths, 0 < x

theorem storable_iff {numbers lengths : List Float} : Storable numbers lengths ↔
    (∀ x ∈ numbers, Scalar.isFinite x = true) ∧ ∀ x ∈ lengths, 0 < x :=
  ⟨fun h => ⟨h.finite, h.positive⟩, fun h => ⟨h.1, h.2⟩⟩

/-- What a document asks of a finite number that is a length. -/
theorem pos_iff {x : Float} (h : Scalar.isFinite x = true) : 0 < x ↔ ¬x ≤ 0 := by
  unfold Scalar.isFinite at h
  rw [Double.floor?_eq, Option.isSome_map] at h
  obtain ⟨p, hp⟩ := Option.isSome_iff_exists.mp h
  have hzero := Double.valueOf?_ofNat (n := 0) (by norm_num)
  change Float.ofNat 0 < x ↔ ¬x ≤ Float.ofNat 0
  rw [Double.lt_iff_valueOf? hzero hp, Double.le_iff_valueOf? hp hzero, not_le]

/-! ## Readers of what was written -/

variable {β γ : Type}

/-- A reader gives a value if a condition holds, and else complains. -/
structure Reads (read : Except Complaint β) (x : β) (condition : Prop) : Prop where
  ok : condition → read = .ok x
  error : ¬condition → ∃ complaint, read = .error complaint

namespace Reads

variable {read : Except Complaint β} {f : β → Except Complaint γ} {x : β} {y : γ} {P Q : Prop}

theorem pure (x : β) : Reads (pure x) x True := ⟨fun _ => rfl, fun h => (h trivial).elim⟩

theorem bind (h : Reads read x P) (h' : Reads (f x) y Q) : Reads (read >>= f) y (P ∧ Q) where
  ok hPQ := by
    rw [h.ok hPQ.1]
    exact h'.ok hPQ.2
  error hPQ := by
    -- the first reader that complains is the one whose complaint is given
    by_cases hP : P
    · rw [h.ok hP]
      exact h'.error fun hQ => hPQ ⟨hP, hQ⟩
    · obtain ⟨complaint, hread⟩ := h.error hP
      rw [hread]
      exact ⟨complaint, rfl⟩

theorem bind_ok {a : β} (h : read = .ok a) (h' : Reads (f a) y Q) : Reads (read >>= f) y Q := by
  rw [h]
  exact h'

theorem congr (h : Reads read x P) (hPQ : P ↔ Q) : Reads read x Q :=
  ⟨fun hQ => h.ok (hPQ.mpr hQ), fun hQ => h.error (mt hPQ.mp hQ)⟩

theorem map (h : Reads read x P) (g : β → γ) : Reads (read.map g) (g x) P where
  ok hP := by
    rw [h.ok hP]
    rfl
  error hP := by
    obtain ⟨complaint, hread⟩ := h.error hP
    rw [hread]
    exact ⟨complaint, rfl⟩

end Reads

section

variable {r : Record} {name : String} (path : Path)

theorem reads_number {x : Float} (h : r.get? name = some (.number x)) (default? : Option Float) :
    Reads (number r path name default?) x (Scalar.isFinite x = true) := by
  unfold number
  rw [h]
  exact ⟨fun hx => if_pos hx, fun hx => ⟨_, if_neg hx⟩⟩

theorem reads_positive {x : Float} (h : r.get? name = some (.number x)) (default? : Option Float) :
    Reads (positive r path name default?) x (Scalar.isFinite x = true ∧ 0 < x) := by
  unfold positive
  have hnumber := reads_number path h default?
  by_cases hx : Scalar.isFinite x = true
  · refine hnumber.bind ⟨fun hpos => if_neg ((pos_iff hx).mp hpos), fun hpos => ?_⟩
    exact ⟨_, if_pos (not_not.mp (mt (pos_iff hx).mpr hpos))⟩
  · obtain ⟨complaint, hread⟩ := hnumber.error hx
    exact ⟨fun h => (hx h.1).elim, fun _ => ⟨complaint, by rw [hread]; rfl⟩⟩

theorem string_eq {text : String} (h : r.get? name = some (.string text))
    (default? : Option String) : string r path name default? = .ok text := by
  unfold string
  rw [h]

theorem reads_itemsFrom {read : Json → Path → Except Complaint β} {write : β → Json}
    {P : β → Prop} (h : ∀ x path, Reads (read (write x) path) x (P x)) :
    ∀ (index : Nat) (items : List β),
      Reads (itemsFrom read path index (items.map write)) items (∀ x ∈ items, P x)
  | _, [] => (Reads.pure []).congr (by simp)
  | index, x :: items => by
    rw [List.map_cons, itemsFrom]
    exact .congr (.bind (h x _) (.bind (reads_itemsFrom h (index + 1) items) (.pure _))) (by simp)

theorem reads_list {read : Json → Path → Except Complaint β} {write : β → Json} {P : β → Prop}
    {items : List β} (hget : r.get? name = some (.array (items.map write)))
    (h : ∀ x path, Reads (read (write x) path) x (P x)) :
    Reads (list read r path name) items (∀ x ∈ items, P x) := by
  unfold list
  rw [hget]
  exact reads_itemsFrom _ h 0 items

end

/-! ## Readers of anything -/

/-- Whatever a reader gives has a property. -/
def Gives (read : Except Complaint β) (P : β → Prop) : Prop := ∀ x, read = .ok x → P x

namespace Gives

variable {read : Except Complaint β} {f : β → Except Complaint γ} {P : β → Prop} {Q : γ → Prop}

theorem any (read : Except Complaint β) : Gives read fun _ => True := fun _ _ => trivial

theorem pure {x : β} (h : P x) : Gives (pure x) P := fun _ hx => Except.ok.inj hx ▸ h

theorem complain (path : Path) (name : String) (rule : Rule) :
    Gives (complain path name rule) P := fun _ h => nomatch h

theorem nil : Gives (.ok []) fun items => ∀ x ∈ items, P x := .pure (by simp)

theorem cons {x : β} {items : List β} (h : P x) (h' : ∀ y ∈ items, P y) :
    Gives (Pure.pure (x :: items)) fun items => ∀ y ∈ items, P y :=
  .pure (by simpa using ⟨h, h'⟩)

theorem bind (h : Gives read P) (h' : ∀ x, P x → Gives (f x) Q) : Gives (read >>= f) Q := by
  intro y hy
  cases hread : read with
  | error complaint =>
    rw [hread] at hy
    cases hy
  | ok x =>
    rw [hread] at hy
    exact h' x (h x hread) y hy

theorem map (h : Gives read P) {g : β → γ} (hg : ∀ x, P x → Q (g x)) : Gives (read.map g) Q := by
  intro y hy
  cases hread : read with
  | error complaint =>
    rw [hread] at hy
    cases hy
  | ok x =>
    rw [hread] at hy
    cases hy
    exact hg x (h x hread)

end Gives

/-- The numbers that stand in for those a document leaves out. -/
def defaults : List Float :=
  [0, Scalar.ofNat Default.tempo, Default.noteVelocity, Default.hitVelocity, Default.trackVolume,
    Default.trackPan]

/-- A default passes the check of the values it stands in for. -/
theorem finite_default {x : Float} (h : x ∈ defaults) : ∀ y ∈ some x, Scalar.isFinite y = true := by
  have hfinite : ∀ x ∈ defaults, Scalar.isFinite x = true := by
    decide +kernel
  rintro y ⟨⟩
  exact hfinite x h

section

variable (r : Record) (path : Path) (name : String)

theorem gives_number {default? : Option Float}
    (hdefault : ∀ x ∈ default?, Scalar.isFinite x = true) :
    Gives (number r path name default?) fun x => Scalar.isFinite x = true := by
  intro x hx
  unfold number at hx
  split at hx
  · split at hx
    · next hfinite => exact Except.ok.inj hx ▸ hfinite
    · cases hx
  · cases hx
  · exact Except.ok.inj hx ▸ hdefault _ rfl
  · cases hx

theorem gives_positive {default? : Option Float}
    (hdefault : ∀ x ∈ default?, Scalar.isFinite x = true) :
    Gives (positive r path name default?) fun x => Scalar.isFinite x = true ∧ 0 < x := by
  refine (gives_number r path name hdefault).bind fun x hx => ?_
  split
  · exact .complain _ _ _
  · next hpos => exact .pure ⟨hx, (pos_iff hx).mpr hpos⟩

theorem gives_itemsFrom {read : Json → Path → Except Complaint β} {P : β → Prop}
    (h : ∀ value path, Gives (read value path) P) :
    ∀ (index : Nat) (values : List Json),
      Gives (itemsFrom read path index values) fun items => ∀ x ∈ items, P x
  | _, [] => .nil
  | index, value :: rest =>
    (h value _).bind fun _ hx => (gives_itemsFrom h (index + 1) rest).bind fun _ hitems =>
      .cons hx hitems

theorem gives_list {read : Json → Path → Except Complaint β} {P : β → Prop}
    (h : ∀ value path, Gives (read value path) P) :
    Gives (list read r path name) fun items => ∀ x ∈ items, P x := by
  unfold list
  split
  · exact .nil
  · exact gives_itemsFrom _ h 0 _
  · exact .complain _ _ _

theorem gives_optional {read : Except Complaint β} {P : β → Prop} (h : Gives read P) :
    Gives (optional r name read) fun x? => ∀ x ∈ x?, P x := by
  unfold optional
  split
  · exact h.map fun x hx y hy => Option.some.inj hy ▸ hx
  · exact .pure (P := fun x? => ∀ x ∈ x?, P x) (by simp)

end

end Document

end LeadSheet
