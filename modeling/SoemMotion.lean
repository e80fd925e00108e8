import SoemMotion.Lib.Section
import SoemMotion.Lib.Chain
import SoemMotion.Lib.Length
import SoemMotion.Arith
import SoemMotion.PoseMath
import SoemMotion.Cubic
import SoemMotion.SimpleTp
import SoemMotion.Tc
import SoemMotion.Tcq
import SoemMotion.Tp
import SoemMotion.Blend
import SoemMotion.Vectors
import SoemMotion.BlendLimits
import SoemMotion.BlendPlane
import SoemMotion.CircleLimits
import SoemMotion.SpiralFit
import SoemMotion.BlendArcs
import SoemMotion.CircleInit
import SoemMotion.CircleEnds
import SoemMotion.Axis
import SoemMotion.Motion
import SoemMotion.Command
import SoemMotion.Control
import SoemMotion.Hpsocket
import SoemMotion.Lib.Run
import SoemMotion.System
import SoemMotion.Cycle
import SoemMotion.CommandFrame
import SoemMotion.FaultStop
import SoemMotion.ModeSwitch
import SoemMotion.LoopExit
import SoemMotion.Timing
import SoemMotion.Lib.Framing
import SoemMotion.StreamReassembly
import SoemMotion.JogContainment
import SoemMotion.PlannerFrame
import SoemMotion.PlannerRun
import SoemMotion.QueuePath
import SoemMotion.SegmentPop
import SoemMotion.CoordCycle
import SoemMotion.Downlink
import SoemMotion.FrameDecode
import SoemMotion.FrameValidation
import SoemMotion.Mailbox
import SoemMotion.Task
import SoemMotion.Acknowledge
import SoemMotion.AxisIndex
import SoemMotion.JogApproach
import SoemMotion.AxisCycle
import SoemMotion.FrameEncode
import SoemMotion.Startup
import SoemMotion.JogFidelity
import SoemMotion.CoordStart
import SoemMotion.JogDirection
import SoemMotion.LimitCoverage
import SoemMotion.SpeedLimits
import SoemMotion.PlannerSettings
import SoemMotion.LineCycle
import SoemMotion.MoveAccuracy
import SoemMotion.JogCompletion
import SoemMotion.JogIncrements
import SoemMotion.LineOutcome
import SoemMotion.QueueEnd
import SoemMotion.HalComponents
import SoemMotion.HalNames
import SoemMotion.Uplink
import SoemMotion.Lockstep
import SoemMotion.LockstepRuns
import SoemMotion.CornerSpeed
import SoemMotion.QueueItems
import SoemMotion.SegmentMotion
import SoemMotion.PathFollow
import SoemMotion.AbortRest
import SoemMotion.Lib.Ring
import SoemMotion.HalBlock
import SoemMotion.HalSteps
import SoemMotion.HalEntries
import SoemMotion.HalRegistry
import SoemMotion.HalMemory
import SoemMotion.HalUsage
import SoemMotion.HalPosition
import SoemMotion.HalSorted
import SoemMotion.HalMutex
import SoemMotion.HalOwnership
import SoemMotion.HalAtomic
import SoemMotion.HalLeftover
import SoemMotion.HalView
import SoemMotion.HalViewCalls
import SoemMotion.HalRestart
import SoemMotion.Lib.Spline
import SoemMotion.CubicRuns
import SoemMotion.CubicTiming
import SoemMotion.Lib.Machine
import SoemMotion.ReceiveRing
import SoemMotion.ReceiveSemaphore
import SoemMotion.FrameChecksum
import SoemMotion.QueueDeque
import SoemMotion.QueueHistory
import SoemMotion.FreeMirror
import SoemMotion.JogOverflow
import SoemMotion.Shmem
import SoemMotion.ModuleIds
import SoemMotion.LookAhead
import SoemMotion.StoppingDistance
import SoemMotion.SplitCycle
import SoemMotion.PooledQueue
import SoemMotion.PooledQueueRuns
import SoemMotion.PooledQueueThreads
import SoemMotion.Lib.Cursor
import SoemMotion.HalRelink
import SoemMotion.ThreadTask
import SoemMotion.RealTime
import SoemMotion.Servo
import SoemMotion.TaskTable
import SoemMotion.TaskTableRuns
import SoemMotion.PauseRest
import SoemMotion.LineBlend
import SoemMotion.Lib.Turn
import SoemMotion.BlendPath
import SoemMotion.CornerBlend
import SoemMotion.BlendSuccess
import SoemMotion.BlendAccel
import SoemMotion.TangentKink
import SoemMotion.Lib.SplitRead
import SoemMotion.StatusRead
