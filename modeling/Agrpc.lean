import Agrpc.Lib.Machine
import Agrpc.Lib.Fifo
import Agrpc.Lib.Projection
import Agrpc.Lib.Potential
import Agrpc.Lib.ReadBy
import Agrpc.Lib.Program
import Agrpc.Context.Runtime
import Agrpc.Context.GrpcContext
import Agrpc.Context.Loop
import Agrpc.Context.Contents
import Agrpc.Context.Renaming
import Agrpc.Context.StepCases
import Agrpc.Context.Frames
import Agrpc.Context.Handshake
import Agrpc.Context.Startup
import Agrpc.Context.History
import Agrpc.Context.WakeUp
import Agrpc.Context.LifeCycle
import Agrpc.Context.Places
import Agrpc.Context.Delivery
import Agrpc.Context.Executor
import Agrpc.Context.StopOperation
import Agrpc.Context.Shutdown
import Agrpc.Context.Progress
import Agrpc.Context.Stopping
import Agrpc.Context.Waiting
import Agrpc.Context.Work
import Agrpc.Context.Completion
import Agrpc.Context.Coroutine
import Agrpc.Context.DirectStyle
import Agrpc.Context.Greeter
import Agrpc.Lib.IntrusiveQueue
import Agrpc.Context.PendingLocal
import Agrpc.Lib.Scope
import Agrpc.System.Threads
import Agrpc.System.ThreadSteps
import Agrpc.System.Moves
import Agrpc.System.CurrentContext
import Agrpc.System.OwnContext
import Agrpc.System.RunCalls
import Agrpc.System.Holding
import Agrpc.System.View
import Agrpc.System.Projection
import Agrpc.System.Transfer
import Agrpc.Lib.Lifetime
import Agrpc.Lib.Overload
import Agrpc.Lib.FixedWidth
import Agrpc.Rpcs.TagInvoke
import Agrpc.Rpcs.CustomizationPoints
import Agrpc.Rpcs.Dispatch
import Agrpc.Rpcs.Compiles
import Agrpc.Rpcs.Sender
import Agrpc.Rpcs.Captures
import Agrpc.Rpcs.Contract
import Agrpc.Lib.TryLock
import Agrpc.Base.CheckNear
import Agrpc.Base.LogEveryN
import Agrpc.Base.LogEveryNSecond
import Agrpc.Base.LogWindow
import Agrpc.Base.CoarseClock
import Agrpc.Base.CoarseTime
import Agrpc.Base.ClockedLog
import Agrpc.Base.LogOnce
