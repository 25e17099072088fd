import DdsPlayground.Core.Loop
import DdsPlayground.Core.Wire
import DdsPlayground.Core.Cutter
import DdsPlayground.Core.LastWrite
import DdsPlayground.Core.History
import DdsPlayground.Core.Ranking
import DdsPlayground.Core.Channel
import DdsPlayground.Core.Recent
import DdsPlayground.Core.Inbox
import DdsPlayground.Core.KeyedTree
import DdsPlayground.Core.Intervals
import DdsPlayground.Core.HostOrder
import DdsPlayground.Core.Replay
import DdsPlayground.Inspector.Native.State
import DdsPlayground.Inspector.Native.Packet
import DdsPlayground.Inspector.Semantics.Guid
import DdsPlayground.Inspector.Semantics.Listing
import DdsPlayground.Inspector.Semantics.Submessage
import DdsPlayground.Inspector.Semantics.Message
import DdsPlayground.Inspector.Semantics.Frame
import DdsPlayground.Inspector.Semantics.Framing
import DdsPlayground.Inspector.Semantics.Effects
import DdsPlayground.Inspector.Semantics.Steps
import DdsPlayground.Inspector.Semantics.Difference
import DdsPlayground.Inspector.Semantics.Encoding
import DdsPlayground.Inspector.Semantics.Parameters
import DdsPlayground.Inspector.Semantics.DataEncoding
import DdsPlayground.Inspector.Semantics.Prefix
import DdsPlayground.Inspector.Correctness.Safety
import DdsPlayground.Inspector.Correctness.Registry
import DdsPlayground.Inspector.Correctness.Order
import DdsPlayground.Inspector.Correctness.Classification
import DdsPlayground.Inspector.Correctness.Attribution
import DdsPlayground.Inspector.Correctness.SourcePrefix
import DdsPlayground.Inspector.Correctness.Walk
import DdsPlayground.Inspector.Correctness.Composition
import DdsPlayground.Inspector.Correctness.RoundTrip
import DdsPlayground.Inspector.Correctness.Truncation
import DdsPlayground.Inspector.Correctness.Modes
import DdsPlayground.Inspector.Correctness.InlineQos
import DdsPlayground.Inspector.Correctness.Announcement
import DdsPlayground.Inspector.Correctness.Strings
import DdsPlayground.Inspector.Correctness.Warning
import DdsPlayground.Inspector.Correctness.Encapsulation
import DdsPlayground.Inspector.Correctness.UdpBounds
import DdsPlayground.Mesh.Native.Programs
import DdsPlayground.Mesh.Native.Network
import DdsPlayground.Mesh.Semantics.Programs
import DdsPlayground.Mesh.Semantics.Hops
import DdsPlayground.Mesh.Semantics.Runs
import DdsPlayground.Mesh.Semantics.Work
import DdsPlayground.Mesh.Correctness.Relay
import DdsPlayground.Mesh.Correctness.Loss
import DdsPlayground.Mesh.Correctness.Freshness
import DdsPlayground.Mesh.Correctness.Progress
import DdsPlayground.Mesh.Correctness.Drain
import DdsPlayground.Ddsi.Native.Reorder
import DdsPlayground.Ddsi.Semantics.Index
import DdsPlayground.Ddsi.Semantics.Insertion
import DdsPlayground.Ddsi.Semantics.Outcome
import DdsPlayground.Ddsi.Semantics.Storing
import DdsPlayground.Ddsi.Semantics.Samples
import DdsPlayground.Ddsi.Semantics.Gaps
import DdsPlayground.Ddsi.Semantics.Receiving
import DdsPlayground.Ddsi.Correctness.Delivery
import DdsPlayground.Ddsi.Correctness.Requests
import DdsPlayground.Ddsi.Correctness.Retransmission
import DdsPlayground.Ddsi.Correctness.Dropping
import DdsPlayground.Cdr.Native.Opcodes
import DdsPlayground.Cdr.Native.Normalize
import DdsPlayground.Cdr.Native.Read
import DdsPlayground.Cdr.Native.Write
import DdsPlayground.Cdr.Semantics.Normalizing
import DdsPlayground.Cdr.Semantics.Programs
import DdsPlayground.Cdr.Semantics.Following
import DdsPlayground.Cdr.Semantics.Reading
import DdsPlayground.Cdr.Semantics.Writing
import DdsPlayground.Cdr.Semantics.Carrying
import DdsPlayground.Cdr.Semantics.Conveying
import DdsPlayground.Cdr.Semantics.Restoring
import DdsPlayground.Cdr.Semantics.Copying
import DdsPlayground.Cdr.Correctness.Acceptance
import DdsPlayground.Cdr.Correctness.ByteOrder
import DdsPlayground.Cdr.Correctness.RoundTrip
