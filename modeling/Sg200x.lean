import Sg200x.Library.Transition
import Sg200x.Library.WrapRing
import Sg200x.Library.NonzeroCounter
import Sg200x.Library.LockOrder
import Sg200x.Library.Service
import Sg200x.Library.Progress
import Sg200x.Ipc.Shm
import Sg200x.Ipc.RingCore
import Sg200x.Ipc.Spsc
import Sg200x.Ipc.App
import Sg200x.Ipc.Firmware
import Sg200x.Ipc.Driver
import Sg200x.Ipc.DriverFacts
import Sg200x.Ipc.FirmwareFacts
import Sg200x.Ipc.Channel
import Sg200x.Ipc.DrainFacts
import Sg200x.Ipc.Drain
import Sg200x.Ipc.Poll
import Sg200x.Ipc.Doorbell
import Sg200x.Ipc.Announce
import Sg200x.Ipc.Stranded
import Sg200x.Ipc.Acquire
import Sg200x.Ipc.Handover
import Sg200x.Ipc.Isolation
import Sg200x.Ipc.Freshness
import Sg200x.Ipc.Ownership
import Sg200x.Ipc.Submission
import Sg200x.Ipc.Reaping
import Sg200x.Ipc.Client
import Sg200x.Ipc.Fallback
import Sg200x.Ipc.Cmdqu
import Sg200x.Ipc.Call
import Sg200x.Ipc.Mailbox
import Sg200x.Library.BoundedQueue
import Sg200x.Ipc.Dispatch
import Sg200x.Ipc.DispatchRuns
import Sg200x.Ipc.StopIsr
import Sg200x.Library.Custody
import Sg200x.Ipc.Handles
import Sg200x.Ipc.HandlesFacts
import Sg200x.Ipc.HandlesRuns
import Sg200x.Ipc.BootTrace
import Sg200x.Ipc.SendWait
import Sg200x.Ipc.LateReply
import Sg200x.Ipc.Shutdown
import Sg200x.Ipc.Quiescence
import Sg200x.Ipc.Attach
import Sg200x.Ipc.Threads
import Sg200x.Ipc.ThreadsFacts
import Sg200x.Ipc.Ledger
import Sg200x.Ipc.Retention
import Sg200x.Ipc.Matching
import Sg200x.Ipc.Delivery
import Sg200x.Ipc.Timeout
import Sg200x.Ipc.Deadlines
import Sg200x.Ipc.Wakeup
import Sg200x.Ipc.SubmitBatch
import Sg200x.Ipc.Adversary
import Sg200x.Ipc.FailStop
import Sg200x.Library.Delimited
import Sg200x.Library.Listing
import Sg200x.Library.Lineage
import Sg200x.Ci.Tree
import Sg200x.Ci.Plan
import Sg200x.Ci.Cache
import Sg200x.Ci.Digest
import Sg200x.Ci.Invalidate
import Sg200x.Ci.Chain
import Sg200x.Library.Overlay
import Sg200x.Ci.Patches
import Sg200x.Library.Window
import Sg200x.Ci.PinScan
import Sg200x.Library.Checked
import Sg200x.Ci.Maintained
import Sg200x.Ci.Pins
import Sg200x.Ci.Matrix
import Sg200x.Ci.Affected
import Sg200x.Ci.Selection
import Sg200x.Library.Incremental
import Sg200x.Ci.Recipes
import Sg200x.Ci.Coverage
import Sg200x.Ci.Rebuild
import Sg200x.Isp.CText
import Sg200x.Isp.Control
import Sg200x.Isp.Requests
import Sg200x.Isp.Session
import Sg200x.Isp.SessionFacts
import Sg200x.Isp.SessionRuns
import Sg200x.Isp.Exposure
import Sg200x.Isp.Noise
import Sg200x.Library.Words
import Sg200x.Library.Census
import Sg200x.Library.Turns
import Sg200x.Ipc.Bench
import Sg200x.Ipc.BenchCounts
import Sg200x.Ipc.BenchBooks
import Sg200x.Ipc.BenchAccounts
import Sg200x.Ipc.BenchRuns
import Sg200x.Cimg.Partitions
import Sg200x.Cimg.Pack
import Sg200x.Cimg.Layout
import Sg200x.Cimg.Windows
import Sg200x.Ipc.Lifecycle
import Sg200x.Ipc.LifecycleFacts
import Sg200x.Ipc.LifecycleRuns
import Sg200x.Ipc.LifecycleEnd
import Sg200x.Library.Roll
import Sg200x.Ipc.Windowed
import Sg200x.Ipc.WindowedFacts
import Sg200x.Ipc.WindowedRuns
import Sg200x.Ipc.WindowedEnd
