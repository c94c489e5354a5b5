import Xrossfire.Library.Avl
import Xrossfire.Library.Fuel
import Xrossfire.Avltree.Operations
import Xrossfire.Avltree.Depth
import Xrossfire.Avltree.Refinement
import Xrossfire.Avltree.Descent
import Xrossfire.Avltree.Reachable
import Xrossfire.Avltree.SortedMap
import Xrossfire.Timeout.Queue
import Xrossfire.Library.Run
import Xrossfire.Timeout.Consumed
import Xrossfire.Timeout.Wakeup
import Xrossfire.Ssl.Receive
import Xrossfire.Async.Machine
import Xrossfire.Async.Effect
import Xrossfire.Async.Account
import Xrossfire.Async.Accounting
import Xrossfire.Async.References
import Xrossfire.Async.Send
import Xrossfire.Async.Lifetime
import Xrossfire.Async.Chunks
import Xrossfire.Async.Monitor
import Xrossfire.Async.Tally
import Xrossfire.Async.Outstanding
import Xrossfire.Async.Phases
import Xrossfire.Async.Cancellation
import Xrossfire.Async.Deadlock
import Xrossfire.Async.Expiry
import Xrossfire.Async.Resumption
import Xrossfire.Async.Starting
import Xrossfire.Ssl.Handshake
import Xrossfire.Ssl.Attempt
import Xrossfire.Ssl.BaseSocket
import Xrossfire.Library.Framing
import Xrossfire.Ssl.Segments
import Xrossfire.Avltree.Deletion
import Xrossfire.Avltree.Height
import Xrossfire.Avltree.Mirror
import Xrossfire.Ssl.Fragments
import Xrossfire.Ssl.Settled
import Xrossfire.Async.Chain
import Xrossfire.Error.Info
import Xrossfire.Timeout.Pass
import Xrossfire.Iocp.Workers
import Xrossfire.Tcp.Close
import Xrossfire.Tcp.Creation
import Xrossfire.Avltree.Check
import Xrossfire.Avltree.Changed
import Xrossfire.Inet.Parse
import Xrossfire.Poll.Registry
import Xrossfire.Async.Fields
import Xrossfire.Async.Initialization
import Xrossfire.Library.Simulation
import Xrossfire.Async.Refinement
import Xrossfire.Async.Guard
import Xrossfire.Library.Table
import Xrossfire.Object.Heap
import Xrossfire.Object.Counting
import Xrossfire.Iocp.Resizing
import Xrossfire.Iocp.Convergence
import Xrossfire.Library.Priority
import Xrossfire.Timeout.Order
import Xrossfire.Async.Wait
import Xrossfire.Strings.Store
import Xrossfire.Ssl.Memory
import Xrossfire.Ssl.Transfer
import Xrossfire.Tcp.Listening
import Xrossfire.Tcp.Context
import Xrossfire.Ssl.Lookup
import Xrossfire.Library.Cursor
import Xrossfire.Poll.Pass
import Xrossfire.Async.Exclusion
import Xrossfire.Object.Dispatch
