import Framecast.Broadcast
import Framecast.Config
import Framecast.Json
import Framecast.Notice
import Framecast.Number.Binary
import Framecast.Number.Shortest
import Framecast.Number.Text
import Framecast.Proofs.Accounts.Balance
import Framecast.Proofs.Accounts.Cover
import Framecast.Proofs.Accounts.Ledger
import Framecast.Proofs.Accounts.Operations
import Framecast.Proofs.Accounts.Reach
import Framecast.Proofs.Cascade.Endings
import Framecast.Proofs.Cascade.Fixpoint
import Framecast.Proofs.Cascade.Hooks
import Framecast.Proofs.Cascade.Rounds
import Framecast.Proofs.Cascade.Survival
import Framecast.Proofs.Cascade.Traces
import Framecast.Proofs.Ends
import Framecast.Proofs.Feed.Agreement
import Framecast.Proofs.Feed.Blocking
import Framecast.Proofs.Feed.Course
import Framecast.Proofs.Feed.Delivery
import Framecast.Proofs.Feed.Heralds
import Framecast.Proofs.Feed.Intents
import Framecast.Proofs.Feed.Loading
import Framecast.Proofs.Feed.Log
import Framecast.Proofs.Feed.Mirror
import Framecast.Proofs.Feed.Outbox
import Framecast.Proofs.Feed.Recovery
import Framecast.Proofs.Feed.Relay
import Framecast.Proofs.Feed.Replay
import Framecast.Proofs.Feed.Rings
import Framecast.Proofs.Feed.Targeting
import Framecast.Proofs.Fields.Altering
import Framecast.Proofs.Fields.Barring
import Framecast.Proofs.Fields.Bounds
import Framecast.Proofs.Fields.Defaults
import Framecast.Proofs.Fields.Density
import Framecast.Proofs.Fields.Encoding
import Framecast.Proofs.Fields.Founding
import Framecast.Proofs.Fields.Overwriting
import Framecast.Proofs.Fields.Puts
import Framecast.Proofs.Fields.Readback
import Framecast.Proofs.Fields.Reading
import Framecast.Proofs.Fields.Refusal
import Framecast.Proofs.Fields.Resolving
import Framecast.Proofs.Fields.Roundtrip
import Framecast.Proofs.Fields.Sealing
import Framecast.Proofs.Fields.Texts
import Framecast.Proofs.Fields.Typing
import Framecast.Proofs.Frames.Boards
import Framecast.Proofs.Frames.Coherence
import Framecast.Proofs.Frames.Contents
import Framecast.Proofs.Frames.Latest
import Framecast.Proofs.Frames.Marking
import Framecast.Proofs.Frames.Opening
import Framecast.Proofs.Frames.Pickup
import Framecast.Proofs.Frames.Posting
import Framecast.Proofs.Frames.Publishing
import Framecast.Proofs.Frames.Recency
import Framecast.Proofs.Frames.Retiring
import Framecast.Proofs.Frames.Rotation
import Framecast.Proofs.Frames.Settling
import Framecast.Proofs.Frames.Showing
import Framecast.Proofs.Frames.Turning
import Framecast.Proofs.Frames.Wiring
import Framecast.Proofs.Guarded.Bytes
import Framecast.Proofs.Guarded.Creation
import Framecast.Proofs.Guarded.Follows
import Framecast.Proofs.Guarded.Frames
import Framecast.Proofs.Guarded.Operations
import Framecast.Proofs.Guarded.Safety
import Framecast.Proofs.Guarded.Writing
import Framecast.Proofs.Loaders.Callbacks
import Framecast.Proofs.Loaders.Consumers
import Framecast.Proofs.Loaders.Pairing
import Framecast.Proofs.Loaders.Viewing
import Framecast.Proofs.Operation.Answers
import Framecast.Proofs.Operation.Checking
import Framecast.Proofs.Operation.Creation
import Framecast.Proofs.Operation.Deeds
import Framecast.Proofs.Operation.Disposal
import Framecast.Proofs.Operation.Instance
import Framecast.Proofs.Operation.Interning
import Framecast.Proofs.Operation.Making
import Framecast.Proofs.Operation.Shifts
import Framecast.Proofs.Operation.Writing
import Framecast.Proofs.Registry.Acts
import Framecast.Proofs.Registry.Dropping
import Framecast.Proofs.Registry.Edit
import Framecast.Proofs.Registry.Indexes
import Framecast.Proofs.Registry.Listing
import Framecast.Proofs.Registry.Numbering
import Framecast.Proofs.Registry.Removal
import Framecast.Proofs.Registry.Resources
import Framecast.Proofs.Registry.Retaining
import Framecast.Proofs.Registry.Steady
import Framecast.Proofs.Registry.Strokes
import Framecast.Proofs.Registry.WellFormed
import Framecast.Proofs.Registry.Within
import Framecast.Proofs.Ring.Bounded
import Framecast.Proofs.Ring.Passage
import Framecast.Proofs.Ring.Queue
import Framecast.Proofs.Ring.Spelling
import Framecast.Proofs.Run.Actions
import Framecast.Proofs.Run.Bindings
import Framecast.Proofs.Run.Caching
import Framecast.Proofs.Run.Deduplication
import Framecast.Proofs.Run.Deeds
import Framecast.Proofs.Run.Listing
import Framecast.Proofs.Run.Moulds
import Framecast.Proofs.Run.Naming
import Framecast.Proofs.Run.Plans
import Framecast.Proofs.Run.Retaining
import Framecast.Proofs.Run.Schemas
import Framecast.Proofs.Run.Segments
import Framecast.Proofs.Run.Settings
import Framecast.Proofs.Run.Shifting
import Framecast.Proofs.Run.Stations
import Framecast.Proofs.Run.Steps
import Framecast.Proofs.Run.Survival
import Framecast.Proofs.Storage.Agreement
import Framecast.Proofs.Storage.Compilation
import Framecast.Proofs.Storage.Holdings
import Framecast.Proofs.Storage.Layouts
import Framecast.Proofs.Storage.Lens
import Framecast.Proofs.Storage.Plans
import Framecast.Proofs.Storage.Values
import Framecast.Proofs.Storage.Words
import Framecast.Proofs.Undo.Attempt
import Framecast.Proofs.Undo.Failure
import Framecast.Proofs.Undo.Loans
import Framecast.Proofs.Undo.Overlay
import Framecast.Proofs.Undo.Trial
import Framecast.Proofs.Waits.Answering
import Framecast.Proofs.Waits.Hearing
import Framecast.Proofs.Waits.Heeding
import Framecast.Proofs.Waits.Minding
import Framecast.Proofs.Waits.Outcomes
import Framecast.Proofs.Waits.Replies
import Framecast.Proofs.Waits.Telling
import Framecast.Proofs.Waits.Verdict
import Framecast.Proofs.Weave.Moves
import Framecast.Proofs.Weave.Progress
import Framecast.Proofs.Weave.Racing
import Framecast.RawBuffer
import Framecast.Region
import Framecast.Registry.Basic
import Framecast.Registry.Cascade
import Framecast.Registry.Create
import Framecast.Registry.Frame
import Framecast.Registry.Instance
import Framecast.Registry.Retainer
import Framecast.Registry.Write
import Framecast.Replica.Basic
import Framecast.Replica.Loader
import Framecast.Replica.Update
import Framecast.Resource
import Framecast.ResourceError
import Framecast.Ring.Record
import Framecast.Ring.RecordRing
import Framecast.Ring.TickGate
import Framecast.Schema.Error
import Framecast.Schema.Kind
import Framecast.Schema.Layout
import Framecast.Schema.Property
import Framecast.Schema.Value
import Framecast.Snapshot.Flags
import Framecast.Snapshot.FrameLink
import Framecast.Snapshot.TripleBuffer
import Framecast.Station
import Framecast.Thread
import Framecast.TransportError
import Framecast.Typed.Class
import Framecast.Typed.Marker
import Framecast.Typed.Scene
import Framecast.View
import Framecast.Wire
import Framecast.Word
