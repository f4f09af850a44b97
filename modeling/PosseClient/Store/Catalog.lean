/-
# The status vocabularies of the queue

The enumerations of `catalog/job.js` and `catalog/work-item.js`, and the `CHECK` lists of
`schema.sql`, with the named subsets that scheduling and locking use.  Each subset is the
source's own list, in its order, so that it can be compared with it; membership is decidable
and evaluates.
-/
import Mathlib

namespace PosseClient

/-! ## 1. Jobs -/

/-- `JOB_TYPES`. -/
inductive JobType
  | research | plan | delegate | dev | assess | fix | summarize | humanInput | artificer
  | promote | preflight | atlasWarm | waitingLanePrepare
  deriving DecidableEq, Repr

/-- `JOB_STATUSES`. -/
inductive JobStatus
  | queued | leased | running | awaitingAssessment | blocked | waitingOnHuman
  | waitingOnReview | succeeded | failed | deadLetter | canceled
  deriving DecidableEq, Repr

/-- `LEASE_HOLDING_STATUSES`. -/
def leaseHoldingStatuses : List JobStatus :=
  [.leased, .running, .awaitingAssessment, .waitingOnHuman, .waitingOnReview]

/-- `LOCK_HOLDING_JOB_STATUSES`. -/
def lockHoldingJobStatuses : List JobStatus := leaseHoldingStatuses ++ [.blocked]

/-- `ACTIVE_LEASE_STATUSES`. -/
def activeLeaseStatuses : List JobStatus := [.leased, .running, .awaitingAssessment]

/-- `PARKED_JOB_STATUSES`. -/
def parkedJobStatuses : List JobStatus := [.blocked, .waitingOnHuman, .waitingOnReview]

/-- `TERMINAL_JOB_STATUSES`. -/
def terminalJobStatuses : List JobStatus := [.succeeded, .failed, .deadLetter, .canceled]

/-- `FAILED_JOB_STATUSES`. -/
def failedJobStatuses : List JobStatus := [.failed, .deadLetter]

/-- `QUEUE_LOCKING_JOB_TYPES`. -/
def queueLockingJobTypes : List JobType := [.dev, .fix, .promote]

/-- `MUTATING_JOB_TYPES`. -/
def mutatingJobTypes : List JobType := [.dev, .fix, .artificer, .promote]

/-- A lease ends in every status that does not hold one: queued, blocked or terminal. -/
theorem not_leaseHolding_iff {s : JobStatus} :
    s ∉ leaseHoldingStatuses ↔ s = .queued ∨ s = .blocked ∨ s ∈ terminalJobStatuses := by
  cases s <;> simp [leaseHoldingStatuses, terminalJobStatuses]

theorem activeLease_subset_leaseHolding : activeLeaseStatuses ⊆ leaseHoldingStatuses := by
  decide

/-- `QUEUED_REPAIR_LOCK_JOB_TYPES`. -/
def queuedRepairLockJobTypes : List JobType := [.fix, .promote]

/-- `ACTIVE_INNER_LOCK_STATUSES_LIST`: the lock-holding statuses that are not parked. -/
def activeInnerLockStatuses : List JobStatus :=
  lockHoldingJobStatuses.filter (fun s => s ∉ parkedJobStatuses)

/-- `JOB_LOCK_RELEASE_STATUSES`. -/
def jobLockReleaseStatuses : List JobStatus :=
  .queued :: (parkedJobStatuses ++ terminalJobStatuses)

/-- `PARKED_LEASE_STATUSES_SQL`: the lease-holding statuses that do not execute. -/
def parkedLeaseStatuses : List JobStatus :=
  leaseHoldingStatuses.filter (fun s => s ∉ activeLeaseStatuses)

/-- `HUMAN_GATE_RESUMABLE_JOB_STATUSES`. -/
def humanGateResumableJobStatuses : List JobStatus := parkedJobStatuses ++ [.awaitingAssessment]

theorem activeInnerLock_eq_activeLease : activeInnerLockStatuses = activeLeaseStatuses := by
  decide

/-! ## 2. Attempts -/

/-- The `attempt_kind` column of `job_attempts`. -/
inductive AttemptKind
  | implementation | assessment | human
  deriving DecidableEq, Repr

/-- The `status` column of `job_attempts`. -/
inductive AttemptStatus
  | running | succeeded | failed | interrupted | blocked | canceled
  deriving DecidableEq, Repr

/-! ## 3. Work items -/

/-- `WORK_ITEM_STATUSES`. -/
inductive WorkItemStatus
  | queued | planning | planned | running | blocked | waitingOnHuman | waitingOnReview
  | complete | failed | canceled
  deriving DecidableEq, Repr

/-- `TERMINAL_WORK_ITEM_STATUSES`. -/
def terminalWorkItemStatuses : List WorkItemStatus := [.complete, .failed, .canceled]

/-- `WI_LOCK_RELEASE_STATUSES`. -/
def wiLockReleaseStatuses : List WorkItemStatus := [.failed, .canceled]

/-- `WORK_ITEM_MERGE_STATES`; the column is null before a work item completes. -/
inductive MergeState
  | pendingReview | mergeAuthorized | merged | mergeFailed
  deriving DecidableEq, Repr

/-- `UNMERGED_WORK_ITEM_MERGE_STATES`. -/
def unmergedWorkItemMergeStates : List MergeState :=
  [.pendingReview, .mergeAuthorized, .mergeFailed]

/-! ## 4. Budgets and agent calls -/

/-- `BUDGET_REASONS`. -/
inductive BudgetReason
  | spend | time | unknown | operator
  deriving DecidableEq, Repr

/-- `BUDGET_STATES`. -/
inductive ReservationState
  | reserved | settled | unknown
  deriving DecidableEq, Repr

/-- The `status` column of `agent_calls`. -/
inductive AgentCallStatus
  | running | succeeded | failed | timeout | interrupted
  deriving DecidableEq, Repr

/-- The `billing_precision` of an agent call; a complete receipt is one of the first two. -/
inductive BillingPrecision
  | exact | aggregateOnly | incomplete
  deriving DecidableEq, Repr

/-! ## 5. Edges, locks and gates -/

/-- The `dependency_kind` column of `job_dependencies`. -/
inductive DependencyKind
  | hard | soft
  deriving DecidableEq, Repr

/-- The `lock_kind` column of both lock tables. -/
inductive LockKind
  | file | root
  deriving DecidableEq, Repr

/-- The `gate_state` column of `human_gates`. -/
inductive GateState
  | opened | resolving | resolved | superseded
  deriving DecidableEq, Repr

/-- `ACTIVE_GATE_STATES`. -/
def activeGateStates : List GateState := [.opened, .resolving]

/-- The `state` column of `human_gate_outbox`. -/
inductive EffectState
  | pending | running | completed | failed
  deriving DecidableEq, Repr

/-- `REVIEWED_HANDOFF_STATES`. -/
inductive TransferState
  | reserved | applying | applied | blocked | canceled
  deriving DecidableEq, Repr

end PosseClient
