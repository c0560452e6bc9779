import ReactorRuntime.Library.Machine
import ReactorRuntime.Library.Progress
import ReactorRuntime.Library.Monitor
import ReactorRuntime.Library.Threaded
import ReactorRuntime.Library.Journal
import ReactorRuntime.Library.Census
import ReactorRuntime.Library.Word
import ReactorRuntime.Library.Bits
import ReactorRuntime.Library.Simulation
import ReactorRuntime.Library.Lease
import ReactorRuntime.Library.Credit
import ReactorRuntime.Library.Rotation
import ReactorRuntime.Library.OrderStatistic
import ReactorRuntime.Library.Spacing
import ReactorRuntime.Library.Relaxed
import ReactorRuntime.Abort.AbortList
import ReactorRuntime.Abort.PureLists
import ReactorRuntime.Abort.Walk
import ReactorRuntime.Abort.WalkInvariant
import ReactorRuntime.Abort.Nesting
import ReactorRuntime.Abort.Ledger
import ReactorRuntime.Abort.Episodes
import ReactorRuntime.Abort.Precedence
import ReactorRuntime.Abort.Calls
import ReactorRuntime.Abort.LateForce
import ReactorRuntime.Sync.OnLoopSync
import ReactorRuntime.Sync.ExactlyOnce
import ReactorRuntime.Sync.Barrier
import ReactorRuntime.Sync.Waits
import ReactorRuntime.Accept.Errors
import ReactorRuntime.Accept.Control
import ReactorRuntime.Accept.Handshake
import ReactorRuntime.Accept.Listening
import ReactorRuntime.Accept.Backoff
import ReactorRuntime.Accept.Rate
import ReactorRuntime.Server.Ticket
import ReactorRuntime.Server.Sessions
import ReactorRuntime.Server.TcpServer
import ReactorRuntime.Accept.RoundRobin
import ReactorRuntime.Server.Deeds
import ReactorRuntime.Server.Accounting
import ReactorRuntime.Server.Linkage
import ReactorRuntime.Server.Shutdown
import ReactorRuntime.Server.Startup
import ReactorRuntime.Server.Fleet
import ReactorRuntime.Server.Confinement
import ReactorRuntime.Server.Drain
import ReactorRuntime.Server.Phases
import ReactorRuntime.Server.Descriptors
import ReactorRuntime.Server.Readiness
import ReactorRuntime.Server.Capacity
import ReactorRuntime.Server.Completion
import ReactorRuntime.Server.Latecomers
import ReactorRuntime.Server.Waits
import ReactorRuntime.Server.Forcing
import ReactorRuntime.Server.Grace
import ReactorRuntime.Server.Service
import ReactorRuntime.Server.Refinement
import ReactorRuntime.Udp.UdpServer
import ReactorRuntime.Udp.Roots
import ReactorRuntime.Udp.Receiving
import ReactorRuntime.Udp.OwnerLoop
import ReactorRuntime.Udp.BufferSizes
import ReactorRuntime.Udp.FailedStart
import ReactorRuntime.Admission.Connection
import ReactorRuntime.Admission.Exact
import ReactorRuntime.Admission.Turnstile
import ReactorRuntime.Admission.LockFree
import ReactorRuntime.Admission.Gate
import ReactorRuntime.Admission.Refusal
import ReactorRuntime.Events.PeriodicTimer
import ReactorRuntime.Events.TimerRefinement
import ReactorRuntime.Events.TimedTimer
import ReactorRuntime.Events.AtomicStart
import ReactorRuntime.Events.Signal
import ReactorRuntime.Events.Visibility
import ReactorRuntime.Events.SendFailure
import ReactorRuntime.Lag.Buckets
import ReactorRuntime.Lag.Partition
import ReactorRuntime.Lag.Snapshot
import ReactorRuntime.Lag.Reading
import ReactorRuntime.Lag.Probe
import ReactorRuntime.Lag.Cadence
