import Wpdk.Base.Run
import Wpdk.Base.Ring
import Wpdk.Base.CString
import Wpdk.Base.RangeLock
import Wpdk.Base.SlotPool
import Wpdk.Base.Search
import Wpdk.Base.SlotMap
import Wpdk.Base.Scan
import Wpdk.Base.Ledger
import Wpdk.Base.Interact
import Wpdk.Base.Bytes
import Wpdk.Base.Hex
import Wpdk.Base.Signed
import Wpdk.Base.Decimal
import Wpdk.Base.Pieces
import Wpdk.Base.Transfer
import Wpdk.Error
import Wpdk.Aio.Context
import Wpdk.Aio.Delivery
import Wpdk.Aio.Vectored
import Wpdk.Aio.VectoredScan
import Wpdk.Aio.VectoredInvariant
import Wpdk.Aio.VectoredSettle
import Wpdk.Aio.Submit
import Wpdk.Aio.Iocount
import Wpdk.Aio.Count
import Wpdk.Aio.ReadFile
import Wpdk.Aio.Report
import Wpdk.Path.Mapping
import Wpdk.Path.Lookup
import Wpdk.Path.Pathmap
import Wpdk.Path.Longest
import Wpdk.Signal.Disposition
import Wpdk.Signal.Kill
import Wpdk.Lockfile.Probe
import Wpdk.Lockfile.Flock
import Wpdk.Lockfile.Range
import Wpdk.Dirent.Stream
import Wpdk.Dirent.Enumerate
import Wpdk.Descriptor.Table
import Wpdk.Descriptor.Socket
import Wpdk.Descriptor.Epoll
import Wpdk.Descriptor.Exclusive
import Wpdk.Epoll.Interest
import Wpdk.Epoll.Wait
import Wpdk.Epoll.Rotation
import Wpdk.Socket.Startup
import Wpdk.Socket.Calls
import Wpdk.Socket.Handles
import Wpdk.Socket.Flags
import Wpdk.Socket.Alone
import Wpdk.Ifaddrs.Listing
import Wpdk.Path.Storage
import Wpdk.Path.Stem
import Wpdk.Stdlib.Mkstemp
import Wpdk.Stdlib.Alloc
import Wpdk.Stdio.Getdelim
import Wpdk.Stdio.Growth
import Wpdk.Strings.Search
import Wpdk.Time.Clock
import Wpdk.Time.Deadline
import Wpdk.Time.Monotonic
import Wpdk.Uio.Vector
import Wpdk.Poll.Poll
import Wpdk.Mman.Mapping
import Wpdk.Hash.Md5
import Wpdk.Uuid.Codec
import Wpdk.Uuid.Compare
import Wpdk.Thread.Table
import Wpdk.Thread.Lifecycle
import Wpdk.Thread.Lookup
import Wpdk.Thread.Create
import Wpdk.Thread.Join
import Wpdk.Thread.Released
import Wpdk.Thread.Foreign
import Wpdk.Thread.Affinity
import Wpdk.Thread.Codes
import Wpdk.Base.Cycle
import Wpdk.Base.Merge
import Wpdk.Base.Calls
import Wpdk.Base.Links
import Wpdk.Getopt.Permute
import Wpdk.Getopt.Options
import Wpdk.Getopt.Handling
import Wpdk.Getopt.Parse
import Wpdk.Getopt.Operands
import Wpdk.Getopt.Long
import Wpdk.Fnmatch.Match
import Wpdk.Fnmatch.Pattern
import Wpdk.Fnmatch.Restrict
import Wpdk.Signal.Worker
import Wpdk.Queue.Slist
import Wpdk.Queue.Stailq
import Wpdk.Queue.Lists
import Wpdk.Queue.Tailq
import Wpdk.Base.Words
import Wpdk.Base.Once
import Wpdk.Sched.Cpuset
import Wpdk.Signal.Sigset
import Wpdk.Path.Race
import Wpdk.Thread.Names
import Wpdk.Ifaddrs.Memory
