import OptimusAgent.FieldLoss
import OptimusAgent.Occ2Dual
import OptimusAgent.EvidenceLinks
import OptimusAgent.ConsolidationAccounts
import OptimusAgent.SessionHistory
import OptimusAgent.SessionTree
import OptimusAgent.SessionMigration
import OptimusAgent.SessionRepair
import OptimusAgent.SnapshotTranscript
import OptimusAgent.EditFile
import OptimusAgent.EditUnique
import OptimusAgent.Editor
import OptimusAgent.CronClaims
import OptimusAgent.CronInterleaving
import OptimusAgent.DispatchLanes
import OptimusAgent.MemoryRuns
import OptimusAgent.CommandJournalRuns
import OptimusAgent.WorkerRecovery
import OptimusAgent.EventLogRivals
import OptimusAgent.EventLogLeads
import OptimusAgent.RlmLedgerSeed
import OptimusAgent.CompactStream
import OptimusAgent.ActionStoreTasks
import OptimusAgent.ActionStoreLanes
import OptimusAgent.TypedVerify
import OptimusAgent.SessionWork
import OptimusAgent.CompactionCuts
import OptimusAgent.SenderQueueSafety
import OptimusAgent.DeltaConfluence
import OptimusAgent.StreamingJson
import OptimusAgent.SummaryChunks
