import CCplusplus.Lib.Exec
import CCplusplus.Lib.Mem
import CCplusplus.Lib.Compare
import CCplusplus.Lib.Compared
import CCplusplus.Lib.Seg
import CCplusplus.Lib.Elems
import CCplusplus.Lib.Bytes
import CCplusplus.Lib.OnesSum
import CCplusplus.Lib.Machine
import CCplusplus.MySort
import CCplusplus.MySortArray
import CCplusplus.MySortRefine
import CCplusplus.MySortOverflow
import CCplusplus.MySortAny
import CCplusplus.MySortCompared
import CCplusplus.MySortInts
import CCplusplus.MyArrayList
import CCplusplus.MyArrayListRefine
import CCplusplus.MyArrayListAlias
import CCplusplus.MyStack
import CCplusplus.MyStackRefine
import CCplusplus.Requests
import CCplusplus.MyStackBounds
import CCplusplus.MyIcmp
import CCplusplus.CheckSum
import CCplusplus.Ping
import CCplusplus.PingRuns
import CCplusplus.PingStats
import CCplusplus.TracerouteUdp
import CCplusplus.TracerouteUdpRuns
import CCplusplus.Equations
import CCplusplus.EquationsLinks
import CCplusplus.EquationsPossible
import CCplusplus.Ch14Async
import CCplusplus.Ch14AsyncRuns
import CCplusplus.Ch14AsyncAlarms
import CCplusplus.Ch14AsyncShort
import CCplusplus.Ch14AsyncExit
import CCplusplus.Ch14Fsync
import CCplusplus.Ch14Deadlock
import CCplusplus.Ch14DeadlockRuns
import CCplusplus.Popen
import CCplusplus.PopenRuns
import CCplusplus.PopenUndone
import CCplusplus.PopenChild
import CCplusplus.Ch11PthreadMutex
import CCplusplus.Lib.Merge
import CCplusplus.Lib.SysV
import CCplusplus.Lib.Transfer
import CCplusplus.Ch11PthreadBarrier
import CCplusplus.Ch12Getenv
import CCplusplus.Ch12GetenvThreads
import CCplusplus.Ch12Mutexattr
import CCplusplus.Ch12MutexattrRuns
import CCplusplus.Ch12PthreadSignal
import CCplusplus.Ch12PthreadSignalRuns
import CCplusplus.Ch15PipeAdd
import CCplusplus.Lib.Lines
import CCplusplus.Ch15PipeAddRuns
import CCplusplus.Lib.Str
import CCplusplus.Ch04Dirent
import CCplusplus.Ch04DirentTree
import CCplusplus.Ch04DirentWalk
import CCplusplus.Ch04DirentBounds
import CCplusplus.Semaph
import CCplusplus.SemaphCounts
import CCplusplus.SemaphRaces
import CCplusplus.SemaphValue
import CCplusplus.MySortBlocks
import CCplusplus.TracerouteIcmp
import CCplusplus.TracerouteCounts
import CCplusplus.TracerouteIcmpStops
import CCplusplus.Lib.Signals
import CCplusplus.Ch10SigsuspendGlobal
import CCplusplus.Ch10SigsuspendGlobalRuns
import CCplusplus.Ch10SignalFork
import CCplusplus.Ch10SignalForkRuns
import CCplusplus.Ch10System2
import CCplusplus.Ch10Jobctl
import CCplusplus.Ch10Sleep
import CCplusplus.Ch08Nice
import CCplusplus.IcmpUnpack
import CCplusplus.IcmpPack
import CCplusplus.PingElapsed
import CCplusplus.SetDest
import CCplusplus.TracerouteUdpTimeout
import CCplusplus.EquationsBounds
import CCplusplus.EquationsForest
import CCplusplus.ReadColumnNumbers
import CCplusplus.ReadColumnNumbersBounds
import CCplusplus.ReadColumnNumbersText
import CCplusplus.RecvFd
import CCplusplus.SendErr
import CCplusplus.TracerouteStd
import CCplusplus.TracerouteStdRuns
import CCplusplus.TracerouteStdHops
import CCplusplus.Tellwait
import CCplusplus.TellwaitLost
import CCplusplus.TellwaitRounds
import CCplusplus.Ch08Racecondition2
import CCplusplus.Dispose
import CCplusplus.Ch10Abort
import CCplusplus.Ch10AbortFlush
import CCplusplus.TtyModes
import CCplusplus.ServAccept
import CCplusplus.BufArgs
