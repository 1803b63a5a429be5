import Hologine.Container.IntrusiveList
import Hologine.Container.ListIteration
import Hologine.Container.NodeList
import Hologine.Exception
import Hologine.ExceptionCodeGenerator
import Hologine.ExceptionHandler
import Hologine.Handle
import Hologine.HandleAge
import Hologine.Io.Binary
import Hologine.Io.BinaryHandle
import Hologine.Io.MemoryStream
import Hologine.Io.StreamSeek
import Hologine.Io.Truncation
import Hologine.Library.Align
import Hologine.Library.Bits
import Hologine.Library.ByteOrder
import Hologine.Library.Bytes
import Hologine.Library.Chain
import Hologine.Library.Chains
import Hologine.Library.Decimal
import Hologine.Library.DoublyLinked
import Hologine.Library.Euclid
import Hologine.Library.Locked
import Hologine.Library.Memory
import Hologine.Library.Numeral
import Hologine.Library.Owners
import Hologine.Library.PowerOfTwo
import Hologine.Library.References
import Hologine.Library.Run
import Hologine.Library.Threads
import Hologine.Library.Utf8
import Hologine.Math.Bits
import Hologine.Math.Matrix
import Hologine.Math.Placing
import Hologine.Math.PowerOfTwo
import Hologine.Math.Projection
import Hologine.Math.Transform
import Hologine.Math.Util
import Hologine.Math.Vector
import Hologine.Math.Vectors
import Hologine.Math.View
import Hologine.Memory.Allocator
import Hologine.Memory.ArenaFailures
import Hologine.Memory.ArenaGeometry
import Hologine.Memory.ArenaRecords
import Hologine.Memory.ArrayAllocation
import Hologine.Memory.BlockingAllocator
import Hologine.Memory.FixedAllocator
import Hologine.Memory.FixedBlocks
import Hologine.Memory.FixedConstruction
import Hologine.Memory.FixedThreads
import Hologine.Memory.HeapAllocator
import Hologine.Memory.HeapPools
import Hologine.Memory.HeapSystem
import Hologine.Memory.LinearAllocator
import Hologine.Memory.LinearMarkers
import Hologine.Memory.LinearRoom
import Hologine.Memory.MemoryArenaPool
import Hologine.Memory.MemoryRegion
import Hologine.Memory.PoolAllocator
import Hologine.Memory.PoolBlocks
import Hologine.Memory.PoolBookkeeping
import Hologine.Memory.PoolDeallocate
import Hologine.Memory.PoolFilling
import Hologine.Memory.PoolFit
import Hologine.Memory.PoolFrame
import Hologine.Memory.PoolInvariant
import Hologine.Memory.PoolLists
import Hologine.Memory.PoolSafety
import Hologine.Memory.RegionObjects
import Hologine.Memory.RegionOwnership
import Hologine.Memory.RegionPages
import Hologine.Memory.WindowsRegion
import Hologine.Text.BuilderChain
import Hologine.Text.BuiltStrings
import Hologine.Text.FloatFormat
import Hologine.Text.Format
import Hologine.Text.IteratorEquality
import Hologine.Text.Printf
import Hologine.Text.String
import Hologine.Text.StringBuilder
import Hologine.Text.StringConstructors
import Hologine.Text.StringDuplicate
import Hologine.Text.StringEquality
import Hologine.Text.StringFailures
import Hologine.Text.StringInside
import Hologine.Text.StringIterator
import Hologine.Text.StringScan
import Hologine.Text.StringSubstring
import Hologine.Text.StringWindow
import Hologine.Text.Utf8
import Hologine.Text.Utf8Decrement
import Hologine.Text.Utf8Defects
import Hologine.Text.Utf8Sequences
import Hologine.ThreadExceptions
import Hologine.Threading.EventDisposal
import Hologine.Threading.EventLifetime
import Hologine.Threading.EventQueue
import Hologine.Threading.EventThreads
import Hologine.Threading.QueueConstruction
import Hologine.Threading.Thread
import Hologine.Threading.ThreadLifetime
import Hologine.Threading.ThreadLocalVariable
import Hologine.Threading.ThreadProc
