import QiranFirmware.Types
import QiranFirmware.Machine.Runs
import QiranFirmware.Machine.SlotRing
import QiranFirmware.Svc.Log
import QiranFirmware.Svc.Time
import QiranFirmware.Machine.Trace
import QiranFirmware.Svc.Fdir
import QiranFirmware.Svc.FdirEffects
import QiranFirmware.Svc.FdirAccounting
import QiranFirmware.Machine.Words
import QiranFirmware.Svc.Config
import QiranFirmware.Svc.ConfigVerify
import QiranFirmware.Mission.Seq
import QiranFirmware.Mission.Effects
import QiranFirmware.Mission.RetryBound
import QiranFirmware.Mission.StallNotice
import QiranFirmware.Comm.Bytes
import QiranFirmware.Comm.Ccsds
import QiranFirmware.Comm.SpwGiveUp
import QiranFirmware.Comm.Output
import QiranFirmware.Comm.OutputCounts
import QiranFirmware.Plat.IsrUart
import QiranFirmware.Comm.Cmd
import QiranFirmware.Comm.CmdStage
import QiranFirmware.Comm.CmdFraming
import QiranFirmware.Machine.Layout
import QiranFirmware.Data.StorageEffects
import QiranFirmware.Data.StorageRun
import QiranFirmware.Data.StorageCount
import QiranFirmware.Data.ClearGuard
import QiranFirmware.Data.Staging
import QiranFirmware.Comm.OutputOrder
import QiranFirmware.Comm.CmdScan
import QiranFirmware.Comm.CcsdsRoundTrip
import QiranFirmware.Comm.CmdAnswers
import QiranFirmware.Comm.Process
import QiranFirmware.Machine.Preempt
import QiranFirmware.Svc.FdirInterleave
import QiranFirmware.Svc.FdirEscalation
import QiranFirmware.Plat.Boot
import QiranFirmware.Plat.BootPower
import QiranFirmware.Machine.Climb
import QiranFirmware.Mission.Answers
import QiranFirmware.Mission.History
import QiranFirmware.Mission.AbortFinal
import QiranFirmware.Mission.RetryAllowance
import QiranFirmware.Mission.ReentryNotice
import QiranFirmware.Exec.Core
import QiranFirmware.Exec.Ticks
import QiranFirmware.Exec.MajorBoundary
import QiranFirmware.Data.TransferProgress
import QiranFirmware.Data.RoundTrip
import QiranFirmware.Comm.OutputPartition
import QiranFirmware.Comm.CcsdsGrammar
import QiranFirmware.Comm.CcsdsRoute
import QiranFirmware.Data.StorageDdr
import QiranFirmware.Data.DataPath
import QiranFirmware.Data.DdrOwnership
import QiranFirmware.Data.Completion
import QiranFirmware.Data.ReadyList
import QiranFirmware.Svc.ConfigLoad
import QiranFirmware.Svc.ConfigRuns
import QiranFirmware.Svc.ConfigGrowth
import QiranFirmware.Exec.MinorCycles
import QiranFirmware.Comm.SizeChecks
import QiranFirmware.Data.StoreBounds
import QiranFirmware.Machine.Succession
import QiranFirmware.Comm.SequenceGaps
import QiranFirmware.Machine.Countdown
import QiranFirmware.Svc.Health
import QiranFirmware.Svc.HealthGate
import QiranFirmware.Machine.ShiftRegister
import QiranFirmware.Svc.CrcBits
import QiranFirmware.Svc.CrcDetects
import QiranFirmware.Svc.CalibrationSet
import QiranFirmware.Svc.LiCurve
import QiranFirmware.Svc.ConfigRoundTrip
import QiranFirmware.Machine.FaultyMemory
import QiranFirmware.Plat.Post
import QiranFirmware.Plat.PostExact
import QiranFirmware.Plat.PostOffset
import QiranFirmware.Exec.Sched
import QiranFirmware.Machine.Parallel
import QiranFirmware.Svc.RingShared
import QiranFirmware.Plat.BootAttempts
import QiranFirmware.Comm.HeaderCodec
import QiranFirmware.Data.Product
import QiranFirmware.Svc.Uptime
import QiranFirmware.Plat.Devinit
import QiranFirmware.Comm.HkFrames
import QiranFirmware.Plat.IrqShared
import QiranFirmware.Comm.FarEnd
import QiranFirmware.Svc.FdirOver
import QiranFirmware.Machine.Mailbox
import QiranFirmware.Comm.HkLink
import QiranFirmware.Comm.HkRuns
import QiranFirmware.Comm.HkRefines
import QiranFirmware.Comm.HkTold
import QiranFirmware.Svc.Clock
import QiranFirmware.Comm.HkPace
import QiranFirmware.Photonic.Loops
import QiranFirmware.Photonic.LoopHistory
import QiranFirmware.Exec.Overruns
import QiranFirmware.Svc.Vigil
import QiranFirmware.Exec.Measured
import QiranFirmware.Machine.Critical
import QiranFirmware.Svc.LogShared
import QiranFirmware.Comm.SpwLedger
import QiranFirmware.Plat.Startup
import QiranFirmware.Mission.FirstCycle
import QiranFirmware.Comm.CmdDeadline
import QiranFirmware.Data.DoubleBuffer
import QiranFirmware.Machine.Rounding
import QiranFirmware.Data.ProductFrame
import QiranFirmware.Machine.Tally
import QiranFirmware.Svc.Reports
import QiranFirmware.Svc.PlatformLosses
import QiranFirmware.Svc.PlatformHistory
import QiranFirmware.Mission.StageTime
