import LeadSheet.Proofs.Number.Exact
import LeadSheet.Proofs.Sorting.Sort
import LeadSheet.Timeline.Compile

/-!
# What is heard, and for how long

A score is enumerated as a list of events, and behind that list stands a list of *spans*: every
note, every pitch of a chord and every drum hit sounds from one time to another one. The spans
follow the score (`spans`): section by section, in a section track by track and then the drums, in a
track the notes and then the chords. The events are those that start and end the spans, each end
right behind its start (`enumerate_eq`). A timeline puts them in order of time, and leaves those of
one time in the order they have here (`ofScore_stable`).
-/

namespace LeadSheet.Timeline

variable {α : Type} [Scalar α]

/-- A pitch that sounds from one time to another one. -/
structure Span (α : Type) where
  track : String
  channel : Nat
  pitch : α
  velocity : Int
  start : α
  stop : α
  deriving DecidableEq, Repr

/-- The event that starts a span, and then the one that ends it. -/
def Span.events (x : Span α) : List (TimedEvent α) :=
  pair x.track x.channel x.pitch x.velocity x.start x.stop

/-- The span of so many beats on a track, from a beat of a section that starts at a time. -/
def spanOf (tempo sectionStart : α) (track : String) (channel : Nat)
    (pitch velocity start duration : α) : Span α :=
  let start := sectionStart + secondsOf tempo start
  ⟨track, channel, pitch, Scalar.sevenBit velocity, start, start + secondsOf tempo duration⟩

/-- The spans of a track: its notes, and then its chords pitch by pitch. -/
def trackSpans (v : Vocabulary α) (tempo sectionStart : α) (channel : Nat) (t : Track α) :
    List (Span α) :=
  (t.notes.map fun n =>
      spanOf tempo sectionStart t.name channel (clampPitch n.pitch) n.velocity n.start n.duration)
    ++ t.chords.flatMap fun c => (c.pitches v).map fun pitch =>
      spanOf tempo sectionStart t.name channel pitch c.velocity c.start c.duration

/-- The span of a drum hit. -/
def hitSpan (v : Vocabulary α) (tempo sectionStart : α) (h : DrumHit α) : Span α :=
  let start := sectionStart + secondsOf tempo h.start
  ⟨Default.drumTrackName, drumChannel, clampPitch (v.drumKey h.drum), Scalar.sevenBit h.velocity,
    start, start + drumHitSeconds⟩

/-- The spans of a section: its tracks, and then its drum hits. -/
def sectionSpans (v : Vocabulary α) (tempo : α) (plan : List (Assignment α)) (s : Section α) :
    List (Span α) :=
  let sectionStart := secondsOf tempo s.startBeat
  s.tracks.flatMap (fun t => trackSpans v tempo sectionStart (channelOf plan t.name) t)
    ++ match s.drums with
      | some drums => drums.hits.map (hitSpan v tempo sectionStart)
      | none => []

/-- The spans of a score, section by section. -/
def spans (v : Vocabulary α) (s : Score α) : List (Span α) :=
  s.sections.flatMap (sectionSpans v s.tempo (assignChannels v s))

/-! ## Events of spans -/

theorem flatMap_events_trackSpans (v : Vocabulary α) (tempo sectionStart : α) (channel : Nat)
    (t : Track α) :
    (trackSpans v tempo sectionStart channel t).flatMap Span.events
      = trackEvents v tempo sectionStart channel t := by
  unfold trackSpans trackEvents
  rw [List.flatMap_append, List.flatMap_map, List.flatMap_assoc]
  congr 1
  refine List.flatMap_congr fun c _ => ?_
  rw [List.flatMap_map]
  rfl

theorem flatMap_events_sectionSpans (v : Vocabulary α) (tempo : α) (plan : List (Assignment α))
    (s : Section α) :
    (sectionSpans v tempo plan s).flatMap Span.events = sectionEvents v tempo plan s := by
  unfold sectionSpans sectionEvents
  rw [List.flatMap_append, List.flatMap_assoc]
  congr 1
  · exact List.flatMap_congr fun t _ => flatMap_events_trackSpans ..
  · cases s.drums with
    | none => rfl
    | some drums =>
      dsimp only
      rw [List.flatMap_map]
      rfl

/-- **The events of a score are those of its spans**, each end right behind its start. -/
theorem enumerate_eq (v : Vocabulary α) (s : Score α) :
    enumerate v s = (spans v s).flatMap Span.events := by
  unfold enumerate spans
  rw [List.flatMap_assoc]
  exact List.flatMap_congr fun part _ => (flatMap_events_sectionSpans ..).symm

/-! ## In order of time -/

theorem earlier_comparesBy (events : List (TimedEvent Rat)) :
    Sorting.ComparesBy TimedEvent.seconds earlier events :=
  fun _ _ _ _ => decide_eq_decide.mpr Iff.rfl

/-- **A timeline holds the events of its score in order of time.** -/
theorem ofScore_stable (v : Vocabulary Rat) (s : Score Rat) :
    Sorting.StableSort TimedEvent.seconds (enumerate v s) (ofScore v s).events :=
  Sorting.sort_stable (earlier_comparesBy _)

end LeadSheet.Timeline
