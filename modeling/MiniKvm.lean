import MiniKvm.Guarantees.StartBarrier
import MiniKvm.Guarantees.ShutdownAbsorbing
import MiniKvm.Guarantees.Wakeup
import MiniKvm.Guarantees.PauseLock
import MiniKvm.Guarantees.Quiescence
import MiniKvm.Guarantees.ShutdownPaths
import MiniKvm.Guarantees.ClientSerial
import MiniKvm.Guarantees.RegisterReports
import MiniKvm.Guarantees.RunOptions
import MiniKvm.Guarantees.BootMapping
import MiniKvm.Guarantees.BootTables
import MiniKvm.Guarantees.KernelLoading
import MiniKvm.Guarantees.RunningCheck
import MiniKvm.Guarantees.CommandFraming
import MiniKvm.Guarantees.ReplyHistory
import MiniKvm.Guarantees.RealReplies
import MiniKvm.Guarantees.MemoryDump
import MiniKvm.Guarantees.OwnDirectory
import MiniKvm.Guarantees.OneLive
import MiniKvm.Guarantees.DeadName
import MiniKvm.Guarantees.MemorySizes
import MiniKvm.Guarantees.RunVerdict
import MiniKvm.Guarantees.NumberLists
import MiniKvm.Guarantees.CpuMask
import MiniKvm.Guarantees.StatusArrays
import MiniKvm.Guarantees.DumpCounters
import MiniKvm.Guarantees.DumpedRange
import MiniKvm.Guarantees.SelectedVcpus
import MiniKvm.Guarantees.FailedRuns
import MiniKvm.Guarantees.SerialOutput
import MiniKvm.Guarantees.FailedStart
import MiniKvm.Guarantees.UsableVm
import MiniKvm.Guarantees.ReleasedResources
import MiniKvm.Guarantees.RunReportsFailure
import MiniKvm.Guarantees.SocketAddresses
import MiniKvm.Guarantees.OpenConnections
import MiniKvm.Guarantees.AnyCommand
import MiniKvm.Guarantees.VectorLists
import MiniKvm.Guarantees.NumberPrefixes
import MiniKvm.Guarantees.ListReads
import MiniKvm.Guarantees.LogLines
import MiniKvm.Guarantees.LogWedge
import MiniKvm.Guarantees.Delivery
import MiniKvm.Guarantees.StateReports
import MiniKvm.Guarantees.CommandEffects
import MiniKvm.Guarantees.ServedClients
import MiniKvm.Guarantees.Joining
import MiniKvm.Guarantees.Sessions
import MiniKvm.Guarantees.DumpReadBack
import MiniKvm.Guarantees.StatusOutput
import MiniKvm.Guarantees.CommandSent
import MiniKvm.Source.Agreement
