import PipeRT.System.Slots
import PipeRT.System.Refinement
import PipeRT.System.Containers
import PipeRT.System.Events
import PipeRT.System.Objects
import PipeRT.System.Dropping
import PipeRT.Stub.Calls
import PipeRT.Stub.Moves
import PipeRT.Stub.Pooled
import PipeRT.Link.Transfer
import PipeRT.Link.Detect
import PipeRT.Profile.Sending
import PipeRT.Profile.Narrowed
import PipeRT.Profile.Aggregate
import PipeRT.Profile.Senders
import PipeRT.Profile.NetworkOrder
import PipeRT.Profile.Elapsed
import PipeRT.Analyzer.Decoded
import PipeRT.Analyzer.Malformed
import PipeRT.Analyzer.ChannelsMap
import PipeRT.Analyzer.Batches
import PipeRT.Analyzer.TimeToBuffer
import PipeRT.Analyzer.Ratio
import PipeRT.Analyzer.Windows
import PipeRT.KeyedHeap
import PipeRT.Channel.Pool
import PipeRT.Locking.PolledChannel
import PipeRT.System.Stopping
import PipeRT.System.Ordering
import PipeRT.Analyzer.Edges
import PipeRT.Analyzer.Flags
import PipeRT.Analyzer.LifeTime
import PipeRT.CText
import PipeRT.Link.Gating
import PipeRT.Locking.ProfileData
import PipeRT.Profile.Live
import PipeRT.Profile.Registry
import PipeRT.ThreadId
