import Rtai.Rings
import Rtai.Runs
import Rtai.Kernel
import Rtai.SchedCore
import Rtai.PrioInher
import Rtai.TaskApi
import Rtai.Sched
import Rtai.Sem
import Rtai.Msg
import Rtai.Steps
import Rtai.Frames
import Rtai.WaitQueues
import Rtai.Control
import Rtai.SemEffects
import Rtai.SemControl
import Rtai.Services
import Rtai.SemSteps
import Rtai.Tokens
import Rtai.Holders
import Rtai.Circular
import Rtai.Mailbox
import Rtai.ByteStream
import Rtai.Pollers
import Rtai.Timed
import Rtai.Deadlines
import Rtai.RpcDeadlines
import Rtai.SemDelete
import Rtai.Owners
import Rtai.Deferral
import Rtai.Broadcast
import Rtai.Rwl
import Rtai.NoToken
import Rtai.ChangePrio
import Rtai.RwlEffects
import Rtai.RwlExclusion
import Rtai.RwlWakeups
import Rtai.Probing
import Rtai.Registry
import Rtai.RegistrySlots
import Rtai.RegistryMap
import Rtai.RegistryErrors
import Rtai.UseCounts
import Rtai.NamedRaces
import Rtai.RegistryLinks
import Rtai.FreedMemory
import Rtai.ProcessEnd
import Rtai.ReadyList
import Rtai.EdfOrder
import Rtai.Barriers
import Rtai.Gangs
import Rtai.LinuxSrq
import Rtai.CounterRing
import Rtai.Fifo
import Rtai.WakeUpRings
import Rtai.FifoWaits
import Rtai.Sleepers
import Rtai.Proxies
import Rtai.Signals
import Rtai.SignalDelivery
import Rtai.ExtendedMsg
import Rtai.ExtendedDelivery
import Rtai.MailboxDelete
import Rtai.DeletionSafety
import Rtai.DeletionReturns
import Rtai.IrqAffinity
import Rtai.Scb
import Rtai.ScbOrder
import Rtai.ScbInit
import Rtai.StealFromLinux
import Rtai.HardSoft
import Rtai.Cpus
import Rtai.Migration
import Rtai.LinuxServer
import Rtai.ServerOrder
import Rtai.Spl
import Rtai.WbufCall
import Rtai.WbufTransparency
import Rtai.Chains
import Rtai.Heap
import Rtai.HeapPlaces
import Rtai.HeapLoops
import Rtai.HeapSizes
import Rtai.HeapInv
import Rtai.HeapAlloc
import Rtai.HeapFree
import Rtai.HeapStart
import Rtai.HeapSound
import Rtai.HeapLayout
import Rtai.HeapComplete
import Rtai.HeapFirstFit
import Rtai.HeapFreeLists
import Rtai.HeapInvalid
import Rtai.FunEntries
import Rtai.Nam2num
import Rtai.WhileLoops
import Rtai.MbxCopies
import Rtai.MbxCalls
import Rtai.MbxTransfers
import Rtai.Ranks
import Rtai.Rms
import Rtai.NamedMbx
import Rtai.FifoOpen
import Rtai.Anchors
import Rtai.TimedWakeup
import Rtai.SearchTrees
import Rtai.TimedTree
import Rtai.CStrings
import Rtai.FifoNames
import Rtai.RingSets
import Rtai.TaskStorage
import Rtai.FifoIoctls
import Rtai.PassPrio
import Rtai.FifoResize
import Rtai.ResizedRing
import Rtai.Bystanders
import Rtai.SyncMessages
import Rtai.SyncReplies
import Rtai.KmallocPages
import Rtai.ScbCounts
import Rtai.ScbOverwrite
import Rtai.BounceSafety
import Rtai.Muldiv
import Rtai.TimeConversion
import Rtai.LatencyFilter
import Rtai.Minima
import Rtai.OwnedPrio
import Rtai.Placement
import Rtai.GlobalLock
