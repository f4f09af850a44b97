/-
# The queue database

One record per table of `schema.sql`, with the columns that the modelled functions read or
write, and `Db`, the tables together.  A function of the source that opens a transaction is a
function from `Db`; where it throws, the transaction rolls back and the caller sees the error.

* Identifiers are `ℕ`; a nullable column is an `Option`.
* A timestamp is its milliseconds, an `ℤ`: the code compares ISO strings of one format and
  `julianday` values of them, and both orders are the order of the instants.
-/
import PosseClient.Store.Catalog
import PosseClient.Lib.Table
import PosseClient.Lib.Runs

namespace PosseClient

/-! ## 1. Rows -/

/-- A row of `work_items`; `generation` stands for `workItemBranchGeneration`, which changes
with every branch reset. -/
structure WorkItem where
  id : ℕ
  status : WorkItemStatus
  mergeState : Option MergeState := none
  branchName : Option String := none
  generation : ℕ := 0
  deriving DecidableEq, Repr

/-- An entry of `_cross_wi_file_syncs` of the reviewed kind: files another work item finished
and this job is to import. -/
structure ReviewedTransfer where
  transferId : ℕ
  receiptId : ℕ
  sourceWorkItemId : ℕ
  sourceGeneration : ℕ
  files : List String
  state : TransferState := .reserved
  applyingAt : Option ℤ := none
  deriving DecidableEq, Repr

/-- An entry of `_cross_wi_existing_order_releases`: a lock another work item gave up so that
this job could go first. -/
structure ExistingOrderRelease where
  sourceWorkItemId : ℕ
  path : String
  lockKind : LockKind
  deriving DecidableEq, Repr

/-- What the modelled functions read of `payload_json`.  `files` and `roots` are the paths that
`Scope.fromPayload` finds in it. -/
structure Payload where
  assessOnly : Bool := false
  taskMode : Option String := none
  reviewType : Option String := none
  subtype : Option String := none
  originalJobId : Option ℕ := none
  planJobId : Option ℕ := none
  files : List String := []
  roots : List String := []
  crossWiFileSyncs : List ReviewedTransfer := []
  existingOrderReleases : List ExistingOrderRelease := []
  deriving DecidableEq, Repr

/-- A row of `jobs`.  A lease token is a `randomUUID`, here the number of its draw. -/
structure Job where
  id : ℕ
  workItemId : Option ℕ
  jobType : JobType
  status : JobStatus
  parentJobId : Option ℕ := none
  leaseOwner : Option String := none
  leaseToken : Option ℕ := none
  leaseExpiresAt : Option ℤ := none
  readyAt : Option ℤ := none
  startedAt : Option ℤ := none
  finishedAt : Option ℤ := none
  attemptCount : ℕ := 0
  payload : Payload := {}
  deriving DecidableEq, Repr

/-- A row of `job_attempts`. -/
structure Attempt where
  id : ℕ
  jobId : ℕ
  kind : AttemptKind
  status : AttemptStatus
  deriving DecidableEq, Repr

/-- A row of `job_dependencies`; its primary key is the pair of jobs. -/
structure Dependency where
  jobId : ℕ
  dependsOnJobId : ℕ
  kind : DependencyKind
  deriving DecidableEq, Repr

/-- A row of `agent_calls`. -/
structure AgentCall where
  id : ℕ
  workItemId : Option ℕ
  jobId : Option ℕ := none
  attemptId : Option ℕ := none
  status : AgentCallStatus := .running
  billingPrecision : Option BillingPrecision := none
  costEstimateUsd : Option ℚ := none
  deriving DecidableEq, Repr

/-- A row of `work_item_budgets`; money is an exact rational. -/
structure Budget where
  workItemId : ℕ
  enabled : Bool := true
  limitUsd : Option ℚ
  reservationUsd : Option ℚ
  deadlineAt : Option ℤ := none
  pausedReason : Option BudgetReason := none
  deriving DecidableEq, Repr

/-- The text key of `budget_reservations`: a `randomUUID`, or `historical:` and a call id. -/
inductive ReservationId
  | uuid (n : ℕ)
  | historical (agentCallId : ℕ)
  deriving DecidableEq, Repr

/-- A row of `budget_reservations`. -/
structure Reservation where
  id : ReservationId
  workItemId : ℕ
  jobId : Option ℕ := none
  agentCallId : Option ℕ := none
  attemptId : Option ℕ := none
  ownerPid : ℕ
  reservedUsd : Option ℚ := none
  costUsd : Option ℚ := none
  state : ReservationState
  deriving DecidableEq, Repr

/-- Why a lock was released. -/
inductive ReleaseReason
  | jobStatus (status : JobStatus)
  | workItemStatus (status : WorkItemStatus)
  | workItemMerged
  | reviewedHandoff | unusedReviewedReservation
  | staleJobLockCleanup | staleWiLockCleanup
  | named (reason : String)
  deriving DecidableEq, Repr

/-- A row of `work_item_file_locks`; it is held while it has no release reason. -/
structure WorkItemFileLock where
  workItemId : ℕ
  path : String
  lockKind : LockKind
  sourceJobId : Option ℕ := none
  releaseReason : Option ReleaseReason := none
  leaseToken : Option ℕ := none
  deriving DecidableEq, Repr

/-- A row of `job_file_locks`; it is held while it has no release reason. -/
structure JobFileLock where
  jobId : ℕ
  workItemId : ℕ
  path : String
  lockKind : LockKind
  releaseReason : Option ReleaseReason := none
  deriving DecidableEq, Repr

/-- The key of one answer: the caller's own text, or the digest of the gate, its generation and
the action. -/
inductive IdempotencyKey
  | request (key : String)
  | digest (gateJobId generation : ℕ) (action : String)
  deriving DecidableEq, Repr

/-- A row of `human_gates`; its primary key is the gate's job. -/
structure HumanGate where
  gateJobId : ℕ
  gateKind : String
  originalJobId : Option ℕ := none
  generation : ℕ := 1
  gateState : GateState := .opened
  allowedSourceStates : List JobStatus := []
  allowedActions : List String := []
  resolutionAction : Option String := none
  idempotencyKey : Option IdempotencyKey := none
  resolverLeaseToken : Option ℕ := none
  deriving DecidableEq, Repr

/-- A `resume_original_job` row of `human_gate_outbox`. -/
structure HumanGateResume where
  gateJobId : ℕ
  operationKey : String
  originalJobId : ℕ
  state : EffectState := .pending
  deriving DecidableEq, Repr

/-- A row of `scheduler_locks`. -/
structure SchedulerLock where
  lockName : String
  ownerId : String
  expiresAt : ℤ
  deriving DecidableEq, Repr

/-! ## 2. Wakes -/

/-- The `reason` of a wake. -/
inductive WakeReason
  | jobCreated | jobPayloadUpdated
  | jobStatus (status : JobStatus)
  | leaseReleased (status : JobStatus)
  | jobLocksReleased (reason : ReleaseReason)
  | workItemLocksReleased (reason : ReleaseReason)
  | workItemLockReleased (reason : ReleaseReason)
  | workItemLocksRestored
  | staleFileLocksReleased
  | jobLeaseExpired | jobOrphanRequeue | jobShutdownRequeue | jobDeadlockedCanceled
  | humanGateResumeAfterParkedLeaseExpiry
  | humanGateResumeQueued | humanGateResumePendingLeaseRelease
  | reviewedHandoff (state : String)
  | workItemRejected | workItemMergePending
  | workItemStatus (status : WorkItemStatus)
  deriving DecidableEq, Repr

/-- The payload of `notifyQueueStateChanged`. -/
structure Wake where
  reason : WakeReason
  jobId : Option ℕ := none
  workItemId : Option ℕ := none
  path : Option String := none
  lockKind : Option LockKind := none
  deriving DecidableEq, Repr

/-! ## 3. The tables together -/

/-- The database, with the wakes sent so far and the number of lease tokens drawn. -/
structure Db where
  workItems : List WorkItem := []
  jobs : List Job := []
  attempts : List Attempt := []
  dependencies : List Dependency := []
  agentCalls : List AgentCall := []
  budgets : List Budget := []
  reservations : List Reservation := []
  workItemFileLocks : List WorkItemFileLock := []
  jobFileLocks : List JobFileLock := []
  humanGates : List HumanGate := []
  humanGateOutbox : List HumanGateResume := []
  schedulerLocks : List SchedulerLock := []
  wakes : List Wake := []
  nextToken : ℕ := 0
  deriving DecidableEq, Repr

/-! ## 4. Errors and commits -/

/-- What a modelled function throws. -/
inductive DbError
  | foreignKey | primaryKey | unknownWorkItem | invalidArgument | noBudget
  | noUnresolvedReservation | inFlightCall
  deriving DecidableEq, Repr

/-- The database after a transaction: an error rolls it back. -/
def Db.commit {α : Type} (db : Db) : Except DbError (Db × α) → Db
  | .ok (db', _) => db'
  | .error _ => db

@[simp] theorem Db.commit_ok {α : Type} (db db' : Db) (a : α) :
    db.commit (.ok (db', a)) = db' := rfl

@[simp] theorem Db.commit_error {α : Type} (db : Db) (e : DbError) :
    db.commit (.error e : Except DbError (Db × α)) = db := rfl

/-! ## 5. Reads by primary key -/

/-- `SELECT * FROM work_items WHERE id = ?`. -/
def Db.getWorkItem (db : Db) (id : ℕ) : Option WorkItem := Table.lookup WorkItem.id id db.workItems

/-- `SELECT * FROM jobs WHERE id = ?`. -/
def Db.getJob (db : Db) (id : ℕ) : Option Job := Table.lookup Job.id id db.jobs

/-- `SELECT * FROM job_attempts WHERE id = ?`. -/
def Db.getAttempt (db : Db) (id : ℕ) : Option Attempt := Table.lookup Attempt.id id db.attempts

/-- `SELECT * FROM agent_calls WHERE id = ?`. -/
def Db.getAgentCall (db : Db) (id : ℕ) : Option AgentCall :=
  Table.lookup AgentCall.id id db.agentCalls

/-- `SELECT * FROM work_item_budgets WHERE work_item_id = ?`. -/
def Db.getBudget (db : Db) (workItemId : ℕ) : Option Budget :=
  Table.lookup Budget.workItemId workItemId db.budgets

/-- `SELECT * FROM budget_reservations WHERE id = ?`. -/
def Db.getReservation (db : Db) (id : ReservationId) : Option Reservation :=
  Table.lookup Reservation.id id db.reservations

/-- `SELECT * FROM human_gates WHERE gate_job_id = ?`. -/
def Db.getHumanGate (db : Db) (gateJobId : ℕ) : Option HumanGate :=
  Table.lookup HumanGate.gateJobId gateJobId db.humanGates

/-! ## 6. Writes to one table

Each statement on a table is written as a change of that table alone, so that what it leaves
unchanged is read off by `simp`. -/

/-- `notifyQueueStateChanged`. -/
def Db.notify (db : Db) (wake : Wake) : Db := { db with wakes := db.wakes ++ [wake] }

/-- `crypto.randomUUID`, `count` times: the draws are `nextToken` and those that follow it. -/
def Db.drawTokens (db : Db) (count : ℕ) : Db := { db with nextToken := db.nextToken + count }

/-- `UPDATE jobs SET f WHERE p`. -/
def Db.updateJobs (db : Db) (p : Job → Bool) (f : Job → Job) : Db :=
  { db with jobs := Table.updateWhere p f db.jobs }

/-- `UPDATE human_gates SET f WHERE p`. -/
def Db.updateHumanGates (db : Db) (p : HumanGate → Bool) (f : HumanGate → HumanGate) : Db :=
  { db with humanGates := Table.updateWhere p f db.humanGates }

/-- `UPDATE work_items SET f WHERE p`. -/
def Db.updateWorkItems (db : Db) (p : WorkItem → Bool) (f : WorkItem → WorkItem) : Db :=
  { db with workItems := Table.updateWhere p f db.workItems }

/-- `UPDATE work_item_file_locks SET f WHERE p`. -/
def Db.updateWorkItemFileLocks (db : Db) (p : WorkItemFileLock → Bool)
    (f : WorkItemFileLock → WorkItemFileLock) : Db :=
  { db with workItemFileLocks := Table.updateWhere p f db.workItemFileLocks }

/-- `UPDATE job_file_locks SET f WHERE p`. -/
def Db.updateJobFileLocks (db : Db) (p : JobFileLock → Bool)
    (f : JobFileLock → JobFileLock) : Db :=
  { db with jobFileLocks := Table.updateWhere p f db.jobFileLocks }

/-- A read of one job after an update that keeps ids. -/
theorem Db.getJob_updateJobs {db : Db} {p : Job → Bool} {f : Job → Job}
    (hid : ∀ job, p job = true → (f job).id = job.id) (id : ℕ) :
    (db.updateJobs p f).getJob id =
      (db.getJob id).map (fun job => if p job then f job else job) :=
  Table.lookup_updateWhere hid

/-- An update of other jobs. -/
theorem Db.getJob_updateJobs_of_ne {db : Db} {p : Job → Bool} {f : Job → Job} {id : ℕ}
    (hid : ∀ job, p job = true → (f job).id = job.id) (hp : ∀ job, p job = true → job.id ≠ id) :
    (db.updateJobs p f).getJob id = db.getJob id := by
  rw [Db.getJob_updateJobs hid]
  cases hjob : db.getJob id with
  | none => rfl
  | some job =>
    have hkey : job.id = id := Table.lookup_key hjob
    rw [Option.map_some, if_neg (fun hpj => hp job hpj hkey)]

section Writes

variable (db : Db) (wake : Wake)

@[simp] theorem Db.notify_workItems : (db.notify wake).workItems = db.workItems := rfl
@[simp] theorem Db.notify_jobs : (db.notify wake).jobs = db.jobs := rfl
@[simp] theorem Db.notify_attempts : (db.notify wake).attempts = db.attempts := rfl
@[simp] theorem Db.notify_dependencies : (db.notify wake).dependencies = db.dependencies := rfl
@[simp] theorem Db.notify_workItemFileLocks :
    (db.notify wake).workItemFileLocks = db.workItemFileLocks := rfl
@[simp] theorem Db.notify_jobFileLocks : (db.notify wake).jobFileLocks = db.jobFileLocks := rfl
@[simp] theorem Db.notify_humanGates : (db.notify wake).humanGates = db.humanGates := rfl
@[simp] theorem Db.notify_budgets : (db.notify wake).budgets = db.budgets := rfl
@[simp] theorem Db.notify_nextToken : (db.notify wake).nextToken = db.nextToken := rfl

end Writes

end PosseClient
