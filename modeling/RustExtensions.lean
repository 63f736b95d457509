import RustExtensions.Lib.Transition
import RustExtensions.Lib.Fallible
import RustExtensions.Lib.KeyedMap
import RustExtensions.Lib.Utf8
import RustExtensions.Lib.Wire
import RustExtensions.Lib.Channel
import RustExtensions.Lib.Program
import RustExtensions.Lib.Runs
import RustExtensions.Lib.Prefix
import RustExtensions.Lib.Fields
import RustExtensions.Lib.Batches
import RustExtensions.Lib.Decimal
import RustExtensions.Lib.Json
import RustExtensions.Lib.Logfmt
import RustExtensions.Lib.Substring
import RustExtensions.Lib.Paths
import RustExtensions.Lib.Fifo
import RustExtensions.Lib.Inodes
import RustExtensions.Lib.Ownership
import RustExtensions.Shim.Values
import RustExtensions.Shim.Monitor
import RustExtensions.Shim.Delivery
import RustExtensions.Shim.Reaper
import RustExtensions.Shim.Bootstrap
import RustExtensions.Shim.StartProtocol
import RustExtensions.Shim.SocketAddress
import RustExtensions.Shim.Publisher
import RustExtensions.Shim.Requeue
import RustExtensions.Shim.Attempts
import RustExtensions.Shim.Lowerdir
import RustExtensions.Shim.Mount
import RustExtensions.Shim.LoopDevice
import RustExtensions.Shim.LoopMount
import RustExtensions.Shim.Compaction
import RustExtensions.Shim.LoopSetup
import RustExtensions.Shim.MountFrame
import RustExtensions.Shim.MountChild
import RustExtensions.Shim.MountData
import RustExtensions.Shim.MountInfo
import RustExtensions.Shim.MountTable
import RustExtensions.Shim.Umount
import RustExtensions.Shim.Cgroup
import RustExtensions.Shim.LogLevel
import RustExtensions.Shim.MemoryLimits
import RustExtensions.Shim.Metrics
import RustExtensions.Shim.Logger
import RustExtensions.Shim.AtomicFile
import RustExtensions.Shim.SocketServer
import RustExtensions.Shim.Launch
import RustExtensions.Shim.MetricsV2
import RustExtensions.Runc.Utils
import RustExtensions.Runc.Options
import RustExtensions.RuncShim.Processes
import RustExtensions.RuncShim.Runc
import RustExtensions.RuncShim.Container
import RustExtensions.RuncShim.Task
import RustExtensions.RuncShim.Service
import RustExtensions.RuncShim.Executor
import RustExtensions.RuncShim.ExitStatus
import RustExtensions.RuncShim.Output
import RustExtensions.RuncShim.Table
import RustExtensions.RuncShim.PidFile
import RustExtensions.RuncShim.Spec.Process
import RustExtensions.RuncShim.Spec.Lifecycle
import RustExtensions.RuncShim.Spec.Container
import RustExtensions.RuncShim.Spec.Task
import RustExtensions.RuncShim.Spec.Handlers
import RustExtensions.RuncShim.Spec.Pump
import RustExtensions.RuncShim.Spec.Shim
import RustExtensions.RuncShim.Spec.History
import RustExtensions.RuncShim.Wait
import RustExtensions.RuncShim.Failure
import RustExtensions.RuncShim.Stopped
import RustExtensions.RuncShim.Deletion
import RustExtensions.RuncShim.EventOrder
import RustExtensions.RuncShim.Os
import RustExtensions.RuncShim.Attribution
import RustExtensions.RuncShim.Tracking
import RustExtensions.RuncShim.InitPidFile
import RustExtensions.RuncShim.StdinHold
import RustExtensions.RuncShim.ExecKill
import RustExtensions.RuncShim.Creation
import RustExtensions.RuncShim.CgroupMemory
import RustExtensions.RuncShim.Info
import RustExtensions.RuncShim.Cleanup
import RustExtensions.RuncShim.StdinCopy
import RustExtensions.RuncShim.OutputCopy
import RustExtensions.RuncShim.Forward
import RustExtensions.RuncShim.Settling
import RustExtensions.RuncShim.ExitPath
import RustExtensions.RuncShim.ExitsShown
import RustExtensions.RuncShim.OomMonitor
import RustExtensions.RuncShim.Descriptors
import RustExtensions.RuncShim.DescriptorAccounts
import RustExtensions.RuncShim.ProcessStdio
import RustExtensions.RuncShim.StdioEnds
import RustExtensions.Snapshots.Wrap
