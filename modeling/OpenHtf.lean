import OpenHtf.TestExecutor
import OpenHtf.Protocol
import OpenHtf.PhaseFrame
import OpenHtf.PhaseRun
import OpenHtf.TreeFrame
import OpenHtf.TreeRules
import OpenHtf.Assignment
import OpenHtf.FirstTerminal
import OpenHtf.Finalize
import OpenHtf.TreeInvariant
import OpenHtf.TeardownGuarantee
import OpenHtf.TeardownContext
import OpenHtf.Placement
import OpenHtf.AutomaticSkips
import OpenHtf.SettledLeaves
import OpenHtf.SubtestIsolation
import OpenHtf.Measurements
import OpenHtf.MeasurementCache
import OpenHtf.DimensionedCache
import OpenHtf.MarginalMeasurements
import OpenHtf.MeasurementRecord
import OpenHtf.Lib.Interleaving
import OpenHtf.UserInput
import OpenHtf.StationWatcher
import OpenHtf.Diagnoses
import OpenHtf.RecordCache
import OpenHtf.PlugLifecycle
import OpenHtf.PlugProvision
import OpenHtf.JsonOutput
import OpenHtf.Serialisation
import OpenHtf.PhaseClassification
import OpenHtf.PhaseAttempts
import OpenHtf.PhaseRecords
import OpenHtf.GetMeasurement
import OpenHtf.Completion
import OpenHtf.Conformance
import OpenHtf.ThreadRun
import OpenHtf.Passing
import OpenHtf.Abortion
import OpenHtf.AdbMessage
import OpenHtf.Filesync
import OpenHtf.SubscribableState
import OpenHtf.ConfigurationLookup
import OpenHtf.AdbConnection
import OpenHtf.AdbConnect
import OpenHtf.AdbStreamIds
import OpenHtf.AdbStreamClose
import OpenHtf.AdbWrites
import OpenHtf.Lib.IndexedName
import OpenHtf.UniqueNameMaker
import OpenHtf.UniqueNames
import OpenHtf.MultidimAttachment
import OpenHtf.Lib.Probing
import OpenHtf.TestRunsConverter
import OpenHtf.AdbDelivery
import OpenHtf.AdbDeliveryRuns
import OpenHtf.PhaseRepetition
import OpenHtf.FirstFailure
import OpenHtf.OutputToFile
import OpenHtf.BaseTypes
import OpenHtf.FormatString
import OpenHtf.DescriptorArgs
import OpenHtf.Lib.ExceptMap
import OpenHtf.PhaseTree
import OpenHtf.MacAddress
import OpenHtf.MacRedaction
import OpenHtf.PercentFormat
import OpenHtf.MacFormat
import OpenHtf.MacFilter
import OpenHtf.PromptTimeout
import OpenHtf.PlugIndexes
import OpenHtf.ConfigurationRestore
import OpenHtf.ConfigurationOverride
import OpenHtf.RangeValidators
import OpenHtf.StringEquality
import OpenHtf.ConversionOptions
import OpenHtf.AttachmentBudget
import OpenHtf.RecordComparison
import OpenHtf.AdbFragments
import OpenHtf.CallRate
import OpenHtf.Retries
import OpenHtf.DuplicateResults
import OpenHtf.FastbootDownload
import OpenHtf.FastbootSession
import OpenHtf.FormatLaws
import OpenHtf.FormatBraces
import OpenHtf.FilesyncService
import OpenHtf.FilesyncSession
import OpenHtf.Unaborted
import OpenHtf.PlanSemantics
import OpenHtf.PlanRefinement
import OpenHtf.PlanTransformation
import OpenHtf.KillableThread
import OpenHtf.TestExecution
import OpenHtf.TestExecutionOwner
import OpenHtf.TestExecutionExposed
import OpenHtf.TestExecutionSigint
import OpenHtf.LogRouting
import OpenHtf.LogWalks
import OpenHtf.PubSub
import OpenHtf.PubSubReplies
import OpenHtf.DashboardServer
import OpenHtf.MfgInspector
