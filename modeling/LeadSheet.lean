import LeadSheet.Device.Basic
import LeadSheet.Device.Hardware
import LeadSheet.Device.Script
import LeadSheet.Device.Task
import LeadSheet.Document.Complaint
import LeadSheet.Document.File
import LeadSheet.Document.Read
import LeadSheet.Document.Write
import LeadSheet.Harmony.Chord
import LeadSheet.Harmony.Pitch
import LeadSheet.Json.Printer
import LeadSheet.Json.Reader
import LeadSheet.Json.Value
import LeadSheet.Midi.Bytes
import LeadSheet.Midi.Export
import LeadSheet.Midi.File
import LeadSheet.Midi.Message
import LeadSheet.Midi.Reader
import LeadSheet.Number.Binary64
import LeadSheet.Number.Exact
import LeadSheet.Number.Notation
import LeadSheet.Number.Numeral
import LeadSheet.Number.Scalar
import LeadSheet.Number.Shortest
import LeadSheet.Playback.Clock
import LeadSheet.Playback.Host
import LeadSheet.Playback.Order
import LeadSheet.Playback.Player
import LeadSheet.Playback.Sound
import LeadSheet.Playback.Stage
import LeadSheet.Prompt.Preset
import LeadSheet.Prompt.Reference
import LeadSheet.Prompt.Request
import LeadSheet.Proofs.Device.Closing
import LeadSheet.Proofs.Device.Delivery
import LeadSheet.Proofs.Device.Disposal
import LeadSheet.Proofs.Device.Muffled
import LeadSheet.Proofs.Device.Prepared
import LeadSheet.Proofs.Device.Quiet
import LeadSheet.Proofs.Device.Results
import LeadSheet.Proofs.Device.Ringing
import LeadSheet.Proofs.Device.Selection
import LeadSheet.Proofs.Device.Step
import LeadSheet.Proofs.Device.Usage
import LeadSheet.Proofs.Device.Waiting
import LeadSheet.Proofs.Document.File
import LeadSheet.Proofs.Document.Format
import LeadSheet.Proofs.Document.RoundTrip
import LeadSheet.Proofs.Document.Saved
import LeadSheet.Proofs.Document.Storable
import LeadSheet.Proofs.Document.Unversioned
import LeadSheet.Proofs.Harmony.Accidentals
import LeadSheet.Proofs.Harmony.Integers
import LeadSheet.Proofs.Harmony.Intervals
import LeadSheet.Proofs.Harmony.Symbols
import LeadSheet.Proofs.Harmony.Tones
import LeadSheet.Proofs.Json.RoundTrip
import LeadSheet.Proofs.Midi.Consistent
import LeadSheet.Proofs.Midi.Inside
import LeadSheet.Proofs.Midi.Limits
import LeadSheet.Proofs.Midi.Message
import LeadSheet.Proofs.Midi.Opened
import LeadSheet.Proofs.Midi.Pickup
import LeadSheet.Proofs.Midi.Quantity
import LeadSheet.Proofs.Midi.Reading
import LeadSheet.Proofs.Midi.RoundTrip
import LeadSheet.Proofs.Midi.Rounds
import LeadSheet.Proofs.Midi.RunningStatus
import LeadSheet.Proofs.Midi.Strokes
import LeadSheet.Proofs.Midi.Tempo
import LeadSheet.Proofs.Midi.Total
import LeadSheet.Proofs.Midi.Writing
import LeadSheet.Proofs.Number.Between
import LeadSheet.Proofs.Number.Decimals
import LeadSheet.Proofs.Number.Digits
import LeadSheet.Proofs.Number.Doubles
import LeadSheet.Proofs.Number.Exact
import LeadSheet.Proofs.Number.Integers
import LeadSheet.Proofs.Number.Monotone
import LeadSheet.Proofs.Number.Nearest
import LeadSheet.Proofs.Number.Neutral
import LeadSheet.Proofs.Number.Notation
import LeadSheet.Proofs.Number.Order
import LeadSheet.Proofs.Number.Rounding
import LeadSheet.Proofs.Number.Shortest
import LeadSheet.Proofs.Number.Signs
import LeadSheet.Proofs.Number.Sums
import LeadSheet.Proofs.Number.Waits
import LeadSheet.Proofs.Number.Whole
import LeadSheet.Proofs.Playback.Clock
import LeadSheet.Proofs.Playback.Commands
import LeadSheet.Proofs.Playback.Cursor
import LeadSheet.Proofs.Playback.Dispatch
import LeadSheet.Proofs.Playback.Due
import LeadSheet.Proofs.Playback.Ending
import LeadSheet.Proofs.Playback.Incidents
import LeadSheet.Proofs.Playback.Loop
import LeadSheet.Proofs.Playback.Observer
import LeadSheet.Proofs.Playback.Pace
import LeadSheet.Proofs.Playback.Playhead
import LeadSheet.Proofs.Playback.Recital
import LeadSheet.Proofs.Playback.Replies
import LeadSheet.Proofs.Playback.Resume
import LeadSheet.Proofs.Playback.Seeking
import LeadSheet.Proofs.Playback.Silence
import LeadSheet.Proofs.Playback.Sounds
import LeadSheet.Proofs.Playback.Underway
import LeadSheet.Proofs.Schema.Gate
import LeadSheet.Proofs.Schema.Search
import LeadSheet.Proofs.Sheet.Coherent
import LeadSheet.Proofs.Sheet.Comments
import LeadSheet.Proofs.Sheet.Content
import LeadSheet.Proofs.Sheet.Fields
import LeadSheet.Proofs.Sheet.Instruments
import LeadSheet.Proofs.Sheet.LineBreaks
import LeadSheet.Proofs.Sheet.Lines
import LeadSheet.Proofs.Sheet.Overrun
import LeadSheet.Proofs.Sheet.Pitches
import LeadSheet.Proofs.Sheet.Repair
import LeadSheet.Proofs.Sheet.Saved
import LeadSheet.Proofs.Sheet.Settled
import LeadSheet.Proofs.Sheet.Slots
import LeadSheet.Proofs.Sheet.Tidy
import LeadSheet.Proofs.Sheet.Written
import LeadSheet.Proofs.Sorting.Halving
import LeadSheet.Proofs.Sorting.Merge
import LeadSheet.Proofs.Sorting.Permutation
import LeadSheet.Proofs.Sorting.Search
import LeadSheet.Proofs.Sorting.Sort
import LeadSheet.Proofs.Sorting.Stable
import LeadSheet.Proofs.Timeline.Agreement
import LeadSheet.Proofs.Timeline.Balance
import LeadSheet.Proofs.Timeline.Channels
import LeadSheet.Proofs.Timeline.Drums
import LeadSheet.Proofs.Timeline.Names
import LeadSheet.Proofs.Timeline.Onset
import LeadSheet.Proofs.Timeline.Plan
import LeadSheet.Proofs.Timeline.Precedence
import LeadSheet.Proofs.Timeline.Sounds
import LeadSheet.Proofs.Timeline.Spans
import LeadSheet.Schema.Gate
import LeadSheet.Schema.Migration
import LeadSheet.Schema.Version
import LeadSheet.Score.Basic
import LeadSheet.Score.Edit
import LeadSheet.Session
import LeadSheet.Sheet.Entry
import LeadSheet.Sheet.Header
import LeadSheet.Sheet.Layout
import LeadSheet.Sheet.Line
import LeadSheet.Sheet.Pattern
import LeadSheet.Sheet.Reading
import LeadSheet.Sheet.Warning
import LeadSheet.Sorting.Merge
import LeadSheet.Sorting.Runs
import LeadSheet.Sorting.Search
import LeadSheet.Text.Blank
import LeadSheet.Text.Case
import LeadSheet.Text.Case.Table
import LeadSheet.Text.Scan
import LeadSheet.Text.Units
import LeadSheet.Text.Utf8
import LeadSheet.Timeline.Channel
import LeadSheet.Timeline.Compile
import LeadSheet.Vocabulary.Basic
import LeadSheet.Vocabulary.GeneralMidi
