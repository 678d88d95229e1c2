import Nanoev.Transition.Run
import Nanoev.Transition.Bisimulation
import Nanoev.Transition.Simulation
import Nanoev.Order.ArrayHeap
import Nanoev.Memory.Chain
import Nanoev.Memory.Queue
import Nanoev.Memory.Window
import Nanoev.Misc
import Nanoev.Timer.MinHeap
import Nanoev.Timer.HeapInvariant
import Nanoev.Timer.Armed
import Nanoev.Timer.Detached
import Nanoev.Timer.Loop
import Nanoev.Timer.LoopInvariant
import Nanoev.Timer.Process
import Nanoev.Timer.Wait
import Nanoev.Timer.Runs
import Nanoev.Timer.Overflow
import Nanoev.Timer.Alike
import Nanoev.Timer.FailedAdd
import Nanoev.Timer.Capacity
import Nanoev.Timer.Deletion
import Nanoev.Timer.Clock
import Nanoev.Io.Basic
import Nanoev.Io.Tcp
import Nanoev.Io.Udp
import Nanoev.Io.Async
import Nanoev.Io.Loop
import Nanoev.Io.Endgame
import Nanoev.Io.TcpOutcome
import Nanoev.Io.TcpInvariant
import Nanoev.Io.UdpOutcome
import Nanoev.Io.LoopInvariant
import Nanoev.Io.EndgamePass
import Nanoev.Io.Local
import Nanoev.Io.TcpLoop
import Nanoev.Io.Timeouts
import Nanoev.EventLoop.Basic
import Nanoev.EventLoop.Nodes
import Nanoev.EventLoop.Parts
import Nanoev.EventLoop.Countdown
import Nanoev.Io.Completion
import Nanoev.Io.Progress
import Nanoev.Io.UdpLoop
import Nanoev.Io.LazyDelete
import Nanoev.Io.UdpCompletion
import Nanoev.Memory.Holdings
import Nanoev.Io.Offers
import Nanoev.Io.Accepting
import Nanoev.Io.AsyncLoop
import Nanoev.Io.Transfer
import Nanoev.Io.AcceptLedger
import Nanoev.Io.LoopFree
import Nanoev.Iocp.Tcp
import Nanoev.Iocp.Outcome
import Nanoev.Iocp.Loop
import Nanoev.Iocp.Late
import Nanoev.Iocp.Runs
import Nanoev.Io.Dangling
import Nanoev.Io.ErrorState
import Nanoev.Io.Interest
import Nanoev.Io.Writes
import Nanoev.Io.Reads
import Nanoev.Io.UdpSend
import Nanoev.Io.UdpWrites
import Nanoev.Poller.Epoll
import Nanoev.Poller.Queue
import Nanoev.Poller.Dispatch
import Nanoev.Poller.Batch
import Nanoev.Poller.Attribution
import Nanoev.Poller.Notify
import Nanoev.Io.Submit
import Nanoev.Poller.LoopPoll
import Nanoev.Threads.AsyncSend
import Nanoev.Threads.Notification
import Nanoev.Iocp.AsyncSend
import Nanoev.Threads.Break
import Nanoev.Iocp.Port
import Nanoev.Iocp.Udp
import Nanoev.Iocp.Endpoints
import Nanoev.Dns.Basic
import Nanoev.Dns.Stage
import Nanoev.Dns.Invariant
import Nanoev.Dns.Delivery
import Nanoev.Dns.Workers
import Nanoev.Dns.LifeCycle
import Nanoev.Dns.Fifo
import Nanoev.Dns.Teardown
