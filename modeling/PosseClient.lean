import PosseClient.Lib.Runs
import PosseClient.Lib.Reachability
import PosseClient.Lib.Table
import PosseClient.Store.Catalog
import PosseClient.Store.Schema
import PosseClient.Queue.Dependencies
import PosseClient.Queue.AdmissionBudget
import PosseClient.Queue.BudgetBound
import PosseClient.Queue.BudgetCoverage
import PosseClient.Scope.Path
import PosseClient.Queue.FileLocks
import PosseClient.Queue.Leases
import PosseClient.Queue.LeaseFencing
import PosseClient.Queue.LeaseColumns
import PosseClient.Queue.AttemptRefund
import PosseClient.Queue.HumanGates
import PosseClient.Queue.GateLifecycle
import PosseClient.Queue.WorkItemMerge
import PosseClient.Queue.WorkItemFrames
import PosseClient.Queue.MergeAuthorization
import PosseClient.Queue.WaitingLanes
import PosseClient.Queue.LaneProofs
import PosseClient.Queue.LaneRuns
import PosseClient.Queue.TrunkMerge
import PosseClient.Queue.TrunkFinality
import PosseClient.Concurrency.AsyncGate
import PosseClient.Concurrency.GateInvariant
import PosseClient.Concurrency.GateExclusion
import PosseClient.Concurrency.ResourceGate
import PosseClient.Concurrency.ReleaseBarriers
import PosseClient.Concurrency.KeyedOrder
import PosseClient.Queue.CrossInstanceClaims
import PosseClient.Queue.ClaimSafety
import PosseClient.Bridge.ReplayChain
import PosseClient.Atlas.BufferVersions
import PosseClient.Atlas.BufferRollback
import PosseClient.Queue.MergeLockSafety
import PosseClient.Queue.WakeDelivery
import PosseClient.Queue.SessionOwners
import PosseClient.Queue.ResumeDelivery
import PosseClient.Git.WorktreeLockSafety
import PosseClient.HashRefs.EvidenceCustody
import PosseClient.Atlas.IntakeOrder
import PosseClient.Bridge.CommandOnce
import PosseClient.HashRefs.CursorReads
import PosseClient.HashRefs.SourceCitations
import PosseClient.HashRefs.FetchAdmission
import PosseClient.Research.PlanPartition
import PosseClient.Toolkit.ExactSpans
import PosseClient.Scip.PositionRoundTrip
import PosseClient.Scip.SymbolRoundTrip
import PosseClient.HashRefs.EvictionExact
import PosseClient.HashRefs.LineSliceCitations
import PosseClient.Atlas.StructurePageBounds
import PosseClient.Scope.NoopCdRemoval
import PosseClient.Queue.PeerDeferrals
import PosseClient.Planning.PostMergeTasks
import PosseClient.Planning.ScopeOverlaps
import PosseClient.Queue.UnlockRanking
import PosseClient.Atlas.CallSiteDedupe
import PosseClient.Queue.LaneEnumerationRuns
import PosseClient.Queue.CandidateScan
import PosseClient.Queue.CandidateCycles
import PosseClient.Queue.RankingMemo
import PosseClient.Queue.EdgeFolds
import PosseClient.Queue.QuietWrites
import PosseClient.Queue.RankingMemoRuns
import PosseClient.Lib.GreedyOrder
import PosseClient.Queue.WorkItemOrder
import PosseClient.Queue.WorkItemOrderSound
import PosseClient.Queue.MergeDependencies
import PosseClient.Queue.MergeOrder
import PosseClient.Queue.DeadlockCancellation
import PosseClient.Concurrency.GateQueueOrder
import PosseClient.Scope.Scopes
import PosseClient.Lib.SegmentedPaths
import PosseClient.Scope.PathSets
import PosseClient.Lib.BreadthFirst
import PosseClient.Queue.PathProvenance
import PosseClient.Lib.PathSearch
import PosseClient.Queue.MergeDependencyWrites
import PosseClient.Queue.MergeDependencyRuns
import PosseClient.Scope.PathSegments
import PosseClient.Scope.LockPaths
import PosseClient.Concurrency.ThreadLifetimes
import PosseClient.Concurrency.ThreadRuns
import PosseClient.Concurrency.ThreadRunStages
import PosseClient.Concurrency.ThreadManager
import PosseClient.Lib.Readers
import PosseClient.Lib.WireFormat
import PosseClient.Scip.ProtoReader
import PosseClient.Scip.Decode
import PosseClient.Scip.DecodeRoundTrip
import PosseClient.Scheduler.LockLease
import PosseClient.Scheduler.LockLeaseSafety
import PosseClient.Toolkit.BatchEdits
import PosseClient.Lib.Splices
import PosseClient.Toolkit.LineSpans
import PosseClient.Toolkit.LineRuns
import PosseClient.Toolkit.BatchSpans
import PosseClient.Toolkit.BatchOrder
import PosseClient.Toolkit.BatchSplice
import PosseClient.Lib.Saturation
import PosseClient.Planning.DroppedTasks
