import Crossbow.Kernel.Machine
import Crossbow.Kernel.Word
import Crossbow.Concurrent.StackConservation
import Crossbow.Concurrent.SingleConsumerQueue
import Crossbow.Concurrent.QueueOrder
import Crossbow.Concurrent.QueueDelivery
import Crossbow.Concurrent.ConcurrentMap
import Crossbow.Kernel.Assoc
import Crossbow.Concurrent.MapBuckets
import Crossbow.Concurrent.MapInvariant
import Crossbow.Concurrent.MapRefinement
import Crossbow.Kernel.Bytes
import Crossbow.Serializer.Policies
import Crossbow.Serializer.Encoding
import Crossbow.Serializer.Size
import Crossbow.Serializer.RoundTrip
import Crossbow.Infinio.ByteBuffer
import Crossbow.Infinio.BatchingMessageSocket
import Crossbow.Infinio.Framing
import Crossbow.Infinio.BatchDelivery
import Crossbow.Allocator.EpochAllocator
import Crossbow.Allocator.EpochInvariant
import Crossbow.Allocator.EpochReclamation
import Crossbow.Infinio.RpcClient
import Crossbow.Infinio.RpcMatching
import Crossbow.Infinio.RpcWaiting
import Crossbow.BasicString.Buffer
import Crossbow.BasicString.Calls
import Crossbow.BasicString.Refinement
import Crossbow.Concurrent.MapLocks
import Crossbow.Concurrent.QueueHead
import Crossbow.Infinio.ConnectionState
import Crossbow.Infinio.EventLoop
import Crossbow.Infinio.TaskQueue
import Crossbow.Infinio.Wakeup
import Crossbow.InfinityVerbs.Context
import Crossbow.Protocol.Calls
import Crossbow.Protocol.Server
import Crossbow.Allocator.ChunkMemoryPool
import Crossbow.Allocator.OrderedReclamation
import Crossbow.Concurrent.StackReservation
import Crossbow.Infinio.AsyncRequests
import Crossbow.Infinio.LocalTaskQueue
import Crossbow.InfinityVerbs.AllToAll
import Crossbow.InfinityVerbs.MemoryTokenStore
import Crossbow.ProgramOptions.CommandLine
import Crossbow.Protocol.Bounds
import Crossbow.Singleton
import Crossbow.Concurrent.MapClear
import Crossbow.Concurrent.MapReserve
import Crossbow.Concurrent.QueueAdmission
import Crossbow.Infinio.BufferAlignment
import Crossbow.Infinio.CursorAssertions
import Crossbow.Infinio.MemoryRegion
import Crossbow.Infinio.MessageSize
import Crossbow.Infinio.Reception
import Crossbow.InfinityVerbs.Handshake
import Crossbow.Serializer.Overwrite
import Crossbow.BasicString.Search
import Crossbow.BasicString.Compare
import Crossbow.BasicString.Exceptions
import Crossbow.Kernel.Numeral
import Crossbow.BasicString.CharSearch
import Crossbow.BasicString.Formatting
import Crossbow.BasicString.Deallocation
import Crossbow.BasicString.Order
import Crossbow.ProgramOptions.Access
import Crossbow.ProgramOptions.Integers
import Crossbow.Allocator.ChunkAllocator
import Crossbow.Infinio.Endpoint
import Crossbow.Kernel.Placement
import Crossbow.Kernel.Follows
import Crossbow.Infinio.CompletionContext
import Crossbow.Infinio.ReceiveBuffers
import Crossbow.Infinio.Draining
import Crossbow.Protocol.Session
import Crossbow.Protocol.RemoteCalls
import Crossbow.Infinio.RpcResponse
