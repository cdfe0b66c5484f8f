import MemoryDwell.FueledLoop
import MemoryDwell.TransitionRuns
import MemoryDwell.CharField
import MemoryDwell.PrefixSums
import MemoryDwell.DwellData
import MemoryDwell.DwellUtils
import MemoryDwell.DwellTbl
import MemoryDwell.DwellPkts
import MemoryDwell.DwellCmds
import MemoryDwell.DwellApp
import MemoryDwell.DwellDispatch
import MemoryDwell.DwellRuns
import MemoryDwell.DwellStreams
import MemoryDwell.StreamInit
import MemoryDwell.SummaryFields
import MemoryDwell.DwellTraces
import MemoryDwell.WakeupEnds
import MemoryDwell.CountdownRange
import MemoryDwell.ActiveEntries
import MemoryDwell.PacketBounds
import MemoryDwell.CommandAccounting
import MemoryDwell.WorkingCopy
import MemoryDwell.InitialCopies
import MemoryDwell.ResetRecovery
import MemoryDwell.CyclicSums
import MemoryDwell.DwellTurns
import MemoryDwell.SamplingSchedule
import MemoryDwell.ConfigurationLimits
import MemoryDwell.EntryAcceptance
import MemoryDwell.FailedCommands
import MemoryDwell.MaskBits
import MemoryDwell.SwitchCommands
import MemoryDwell.StoppedStreams
import MemoryDwell.HousekeepingWidths
import MemoryDwell.Noninterference
import MemoryDwell.StreamIsolation
import MemoryDwell.EdsDispatch
import MemoryDwell.ReadResults
import MemoryDwell.DispatchAgreement
import MemoryDwell.CollectedBytes
import MemoryDwell.TableValidation
import MemoryDwell.LoadSummary
import MemoryDwell.EntryIndices
import MemoryDwell.BoundedPasses
import MemoryDwell.CopiedAddresses
import MemoryDwell.SignaturePath
import MemoryDwell.NameScans
import MemoryDwell.InitAccounting
import MemoryDwell.GroundRequests
import MemoryDwell.TableActivation
import MemoryDwell.DwellMain
import MemoryDwell.Lockstep
import MemoryDwell.StateRelations
import MemoryDwell.MainLoop
import MemoryDwell.EventLog
import MemoryDwell.Replay
import MemoryDwell.TableHistories
import MemoryDwell.SchedulePhases
import MemoryDwell.TruthfulTelemetry
import MemoryDwell.TableUploads
import MemoryDwell.Lifetimes
import MemoryDwell.DormantEntries
import MemoryDwell.PacketProvenance
import MemoryDwell.MemoryIndependence
import MemoryDwell.PacketFields
import MemoryDwell.BuildRuns
import MemoryDwell.ReadAuthority
import MemoryDwell.MainHangs
