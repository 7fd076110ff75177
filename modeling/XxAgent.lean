import XxAgent.Agent.InboxRuns
import XxAgent.Agent.ToolCallsRuns
import XxAgent.Persistence.BackendAgreement
import XxAgent.Persistence.SuffixRead
import XxAgent.Persistence.Adoption
import XxAgent.Session.DanglingCalls
import XxAgent.Session.StorePairing
import XxAgent.Persistence.PreparationsRelease
import XxAgent.Remote.SessionLoad
import XxAgent.Projection.CacheRuns
import XxAgent.Tools.CodeModeSchedule
import XxAgent.Storage.DomainRuns
import XxAgent.Schedule.Runs
import XxAgent.Agent.TurnStops
import XxAgent.Artifacts.CleanRuns
import XxAgent.Facts.Serialisable
import XxAgent.Jsonl.ScannerObject
import XxAgent.Persistence.WriteBehind
import XxAgent.Skills.Governed
import XxAgent.Jsonl.ZstdFrames
import XxAgent.Output.TextRetainer
import XxAgent.Session.LosslessWalk
import XxAgent.Persistence.LegacyRewrites
import XxAgent.Retrieval.SearchHead
import XxAgent.Client.PartialAgreement
import XxAgent.Compaction.BalancedCuts
import XxAgent.Compaction.RegionSelection
import XxAgent.Client.ToolCallForest
import XxAgent.Schedule.FixedRate
import XxAgent.Schedule.LocalTime
import XxAgent.Session.ForkBoundary
import XxAgent.Client.OlderHistory
import XxAgent.Storage.JsonUnitWrites
import XxAgent.Jsonl.Segment
import XxAgent.Lsp.Framing
import XxAgent.Tokens.Drift
import XxAgent.Tokens.RequestPressure
import XxAgent.Files.ExactEdits
import XxAgent.Compaction.PruneSession
import XxAgent.Skills.CompletedInstructions
import XxAgent.Jsonl.CrashRepair
