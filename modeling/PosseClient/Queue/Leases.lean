/-
# Leases: acquisition, renewal, release, requeue and the attempts charged under them

`leases.js`, `attempts.js` and the lease writers of `queue-store.js`.  A worker owns a job by
the random token in its row; every writer that acts for a worker compares the token it was
given with the one in the row, and every path that takes the job away clears the lease columns.

* Each function is one transaction.  The sweeps read their candidates before they write; the
  candidates are an argument of the write (`requeueAll`, `clearParkedLeases`), so that another
  process may act in between.
* What a requeue does after its transaction (resume effects, job locks) is a transaction of its
  own, `settleRequeuedJob`.
* The refresh of a work item's status that follows a sweep writes jobs only through
  `updateJobStatus`, and is not repeated here.
-/
import PosseClient.Queue.FileLocks

namespace PosseClient

/-! ## 1. Resumes that wait for a lease to end -/

/-- `pendingHumanGateResumeEffects`. -/
def isPendingResume (jobId : ℕ) (effect : HumanGateResume) : Bool :=
  effect.state == .pending && effect.originalJobId == jobId

/-- `settleHumanGateResumeEffects`. -/
def settleHumanGateResumeEffects (db : Db) (jobId : ℕ) (state : EffectState) : Db :=
  { db with
    humanGateOutbox := Table.updateWhere (isPendingResume jobId)
      (fun effect => { effect with state := state }) db.humanGateOutbox }

/-- The lease columns of a job that is no longer leased. -/
def Job.unlease (job : Job) : Job :=
  { job with leaseOwner := none, leaseToken := none, leaseExpiresAt := none }

/-- `consumePendingHumanGateResume`; the answer is `resumed`. -/
def consumePendingHumanGateResume (db : Db) (jobId : ℕ) : Db × Bool :=
  if db.humanGateOutbox.any (isPendingResume jobId) = false then (db, false)
  else match db.getJob jobId with
    | none => (settleHumanGateResumeEffects db jobId .failed, false)
    | some job =>
      if job.status = .queued then (settleHumanGateResumeEffects db jobId .completed, true)
      else if job.status ∉ humanGateResumableJobStatuses then
        (settleHumanGateResumeEffects db jobId .failed, false)
      else if job.leaseToken.isSome then (db, false)
      else
        let resumed := db.updateJobs
          (fun j => j.id == jobId && j.status == job.status && j.leaseToken.isNone)
          (fun j => { j.unlease with status := .queued, finishedAt := none })
        (settleHumanGateResumeEffects resumed jobId .completed, true)

/-! ## 2. Transfers given back by a job that will not import them -/

/-- The transfers `cancelUnusedReviewedTransfers` gives back: Git was never touched for them. -/
def ReviewedTransfer.isUnused (entry : ReviewedTransfer) : Bool :=
  entry.state ∈ [TransferState.reserved, TransferState.blocked] && entry.applyingAt.isNone

/-- One file of an unused transfer: the job's own row goes, and the last row its source gave up
for it comes back unless some work item holds the path. -/
def returnTransferredFile (db : Db) (workItemId jobId : ℕ) (entry : ReviewedTransfer)
    (file : String) : Db :=
  let released := db.updateWorkItemFileLocks
    (fun l => l.heldBy workItemId && l.path == file && l.sourceJobId == some jobId)
    (fun l => { l with releaseReason := some .unusedReviewedReservation })
  let returns := (released.getWorkItem entry.sourceWorkItemId).any (fun source =>
    source.mergeState != some .merged && source.status ∉ wiLockReleaseStatuses &&
      source.generation == entry.sourceGeneration)
  let held := released.workItemFileLocks.any
    (fun l => l.releaseReason.isNone && l.path == file)
  if returns && !held then
    let given := fun l : WorkItemFileLock => l.workItemId == entry.sourceWorkItemId &&
      l.path == file && l.releaseReason == some .reviewedHandoff
    let rows := released.workItemFileLocks
    match (rows.reverse).findIdx? given with
    | none => released
    | some i => { released with
        workItemFileLocks := rows.modify (rows.length - 1 - i)
          (fun l => { l with releaseReason := none }) }
  else released

/-- Every file of the unused transfers of a job. -/
def returnTransfers (db : Db) (workItemId jobId : ℕ) (unused : List ReviewedTransfer) : Db :=
  unused.foldl (fun d entry => entry.files.foldl
    (fun d file => returnTransferredFile d workItemId jobId entry file) d) db

/-- `cancelUnusedReviewedTransfers`, for a canceled or dead-lettered job. -/
def cancelUnusedReviewedTransfers (db : Db) (jobId : ℕ) : Db :=
  match db.getJob jobId with
  | none => db
  | some job =>
    let unused := job.payload.crossWiFileSyncs.filter ReviewedTransfer.isUnused
    if job.leaseToken.isSome ∨ job.status ∉ [JobStatus.canceled, JobStatus.deadLetter] ∨
        unused = [] then db
    else match job.workItemId with
      | none => db
      | some workItemId =>
        let kept := job.payload.crossWiFileSyncs.filter
          (fun entry => entry.transferId ∉ unused.map ReviewedTransfer.transferId)
        ((returnTransfers db workItemId jobId unused).updateJobs (fun j => j.id == jobId)
          (fun j => { j with payload := { job.payload with crossWiFileSyncs := kept } })).notify
          { reason := .reviewedHandoff "canceled", jobId := some jobId,
            workItemId := some workItemId }

theorem locksOnly_returnTransferredFile (db : Db) (workItemId jobId : ℕ)
    (entry : ReviewedTransfer) (file : String) :
    LocksOnly db (returnTransferredFile db workItemId jobId entry file) := by
  unfold returnTransferredFile
  dsimp only
  split
  · split
    · exact ⟨rfl, rfl, rfl, rfl, rfl, rfl, rfl, rfl⟩
    · exact ⟨rfl, rfl, rfl, rfl, rfl, rfl, rfl, rfl⟩
  · exact ⟨rfl, rfl, rfl, rfl, rfl, rfl, rfl, rfl⟩

theorem locksOnly_returnTransfers (db : Db) (workItemId jobId : ℕ)
    (unused : List ReviewedTransfer) :
    LocksOnly db (returnTransfers db workItemId jobId unused) := by
  unfold returnTransfers
  refine locksOnly_foldl (fun d entry => ?_) unused db
  exact locksOnly_foldl
    (fun d file => locksOnly_returnTransferredFile d workItemId jobId entry file) entry.files d

/-! ## 3. Acquiring, renewing and releasing -/

/-- `acquireLease`; the answer is the fresh token. -/
def acquireLease (clock : Clock) (db : Db) (jobId : ℕ) (ownerId : String) (durationMs : ℤ) :
    Db × Option ℕ :=
  let p := fun job : Job =>
    job.id == jobId && job.status == .queued && !isBudgetPaused db job.workItemId
  if Table.changes p db.jobs = 0 then (db, none)
  else ((db.updateJobs p
      (fun job => job.lease ownerId db.nextToken (clock.leaseNow + durationMs))).drawTokens 1,
    some db.nextToken)

/-- `isLeaseValid`. -/
def isLeaseValid (clock : Clock) (db : Db) (jobId leaseToken : ℕ) : Bool :=
  (db.getJob jobId).any (leaseIsValid clock leaseToken)

/-- `renewLease`: a later expiry stays. -/
def renewLease (clock : Clock) (db : Db) (jobId leaseToken : ℕ) (durationMs : ℤ) : Db × Bool :=
  let p := fun job : Job => job.id == jobId && leaseIsValid clock leaseToken job
  let expiresAt := clock.leaseNow + durationMs
  (db.updateJobs p (fun job =>
      { job with leaseExpiresAt := job.leaseExpiresAt.map (max · expiresAt) }),
    decide (0 < Table.changes p db.jobs))

/-- The row `releaseLeaseInternal` writes. -/
def Job.release (clock : Clock) (finalStatus : JobStatus) (readyAt : Option ℤ) (job : Job) : Job :=
  { job.unlease with
    status := finalStatus
    finishedAt := if finalStatus ∈ terminalJobStatuses then some clock.now else job.finishedAt
    readyAt := readyAt.or job.readyAt }

/-- A job a token of this value may write. -/
def Job.isLeasedBy (jobId leaseToken : ℕ) (job : Job) : Bool :=
  job.id == jobId && job.leaseToken == some leaseToken && job.status ∈ leaseHoldingStatuses

/-- `releaseLease`. -/
def releaseLease (clock : Clock) (db : Db) (jobId leaseToken : ℕ) (finalStatus : JobStatus)
    (readyAt : Option ℤ) : Db × Bool :=
  let p := Job.isLeasedBy jobId leaseToken
  if Table.changes p db.jobs = 0 then (db, false)
  else
    let released := db.updateJobs p (Job.release clock finalStatus readyAt)
    let rolledBack := if finalStatus ∈ [JobStatus.deadLetter, JobStatus.canceled] then
      cancelUnusedReviewedTransfers released jobId else released
    let resumed := consumePendingHumanGateResume rolledBack jobId
    let effectiveStatus := if resumed.2 then .queued else finalStatus
    ((releaseJobLocksForStatus resumed.1 jobId effectiveStatus).notify
      { reason := .leaseReleased effectiveStatus, jobId := some jobId,
        workItemId := (resumed.1.getJob jobId).bind Job.workItemId }, true)

/-- `MAX(0, attempt_count - 1)`. -/
def Job.refundAttempt (job : Job) : Job := { job with attemptCount := job.attemptCount - 1 }

/-- `releaseLeaseWithoutAttemptPenalty`. -/
def releaseLeaseWithoutAttemptPenalty (clock : Clock) (db : Db) (jobId leaseToken : ℕ)
    (finalStatus : JobStatus) (readyAt : Option ℤ) (attemptId : Option ℕ) : Db × Bool :=
  let released := releaseLease clock db jobId leaseToken finalStatus readyAt
  if released.2 = false then released
  else match attemptId with
    | none =>
      if finalStatus = .queued ∧ (released.1.getJob jobId).any hasReviewedReservation = false then
        ({ released.1 with
            workItemFileLocks := Table.deleteWhere
              (fun l => l.sourceJobId == some jobId && l.releaseReason.isNone &&
                l.leaseToken == some leaseToken) released.1.workItemFileLocks }, true)
      else released
    | some id =>
      if released.1.attempts.any (fun a => a.id == id && a.jobId == jobId &&
          a.kind ∈ [AttemptKind.implementation, AttemptKind.human]) then
        (released.1.updateJobs (fun j => j.id == jobId) Job.refundAttempt, true)
      else released

/-! ## 4. Attempts -/

/-- The next value of an `AUTOINCREMENT` key. -/
def nextAttemptId (db : Db) : ℕ := (db.attempts.map Attempt.id).foldr max 0 + 1

/-- `incrementAndCreateAttempt`; the answer is the id of the new attempt. -/
def incrementAndCreateAttempt (clock : Clock) (db : Db) (jobId leaseToken : ℕ)
    (kind : AttemptKind) : Db × Option ℕ :=
  if isLeaseValid clock db jobId leaseToken = false then (db, none)
  else
    let charged := db.updateJobs (fun j => j.id == jobId)
      (fun j => { j with attemptCount := j.attemptCount + 1 })
    let attempt : Attempt :=
      { id := nextAttemptId db, jobId := jobId,
        kind := if kind = .human then .human else .implementation, status := .running }
    ({ charged with attempts := charged.attempts ++ [attempt] }, some attempt.id)

/-- `completeAttempt`. -/
def completeAttempt (db : Db) (attemptId : ℕ) (status : AttemptStatus) : Db :=
  { db with
    attempts := Table.updateWhere (fun a => a.id == attemptId)
      (fun a => { a with status := status }) db.attempts }

/-! ## 5. Requeues -/

/-- `SELECT MAX(id) FROM job_attempts WHERE job_id = ?`, the row itself. -/
def latestAttempt (db : Db) (jobId : ℕ) : Option Attempt :=
  (db.attempts.filter (fun a => a.jobId == jobId)).foldl
    (fun best a => if best.any (fun b => a.id < b.id) then best else some a) none

/-- The `CASE` by which a requeue refunds an attempt: the job is running, and so is its latest
attempt, of a kind that is charged. -/
def refundsAttempt (db : Db) (job : Job) : Bool :=
  job.status == .running && (latestAttempt db job.id).any
    (fun a => a.status == .running && a.kind ∈ [AttemptKind.implementation, AttemptKind.human])

/-- The row every requeue writes. -/
def Job.requeue (clock : Clock) (refunds : Bool) (job : Job) : Job :=
  let queued := { job.unlease with status := .queued, readyAt := some clock.now }
  if refunds then queued.refundAttempt else queued

/-- `ASSESS_ONLY_PAYLOAD_SQL`. -/
def Job.markAssessOnly (job : Job) : Job :=
  { job with payload := { job.payload with assessOnly := true } }

/-- `UPDATE jobs SET` `ASSESS_ONLY_PAYLOAD_SQL` `WHERE id = ?`, after an assessment. -/
def markAssessOnly (db : Db) (jobId : ℕ) (wasAssessing : Bool) : Db :=
  if wasAssessing then db.updateJobs (fun j => j.id == jobId) Job.markAssessOnly else db

/-- The transaction of `requeueForShutdown`. -/
def requeueShutdownRow (clock : Clock) (db : Db) (jobId : ℕ) : Db × Bool :=
  match db.getJob jobId with
  | none => (db, false)
  | some row =>
    if row.status ∉ leaseHoldingStatuses then (db, false)
    else
      let requeued := db.updateJobs
        (fun j => j.id == jobId && j.status ∈ leaseHoldingStatuses)
        (fun j => j.requeue clock (refundsAttempt db j))
      ((consumePendingHumanGateResume
        (markAssessOnly requeued jobId (row.status == .awaitingAssessment)) jobId).1, true)

/-- What follows a requeue outside its transaction: pending resumes and the job's locks. -/
def settleRequeuedJob (db : Db) (jobId : ℕ) (status : JobStatus) : Db :=
  releaseJobLocksForStatus
    (if status = .queued then (consumePendingHumanGateResume db jobId).1 else db) jobId status

/-- `requeueForShutdown`. -/
def requeueForShutdown (clock : Clock) (db : Db) (jobId : ℕ) : Db × Bool :=
  let requeued := requeueShutdownRow clock db jobId
  if requeued.2 then
    ((releaseJobLocksForStatus requeued.1 jobId .queued).notify
      { reason := .jobShutdownRequeue, jobId := some jobId }, true)
  else (db, false)

/-- A parked job whose lease is stale: it has a token and no expiry that is still in grace. -/
def isParkedStale (clock : Clock) (job : Job) : Bool :=
  job.status ∈ parkedLeaseStatuses && job.leaseToken.isSome &&
    !job.leaseExpiresAt.any (fun expiresAt => clock.graceCutoff ≤ expiresAt)

/-- The `WHERE` clause of its update, for a row it selected. -/
def isParkedRow (row job : Job) : Bool :=
  job.id == row.id && row.leaseToken.isSome && job.leaseToken == row.leaseToken &&
    job.status ∈ parkedLeaseStatuses

/-- One row of the transaction of `clearExpiredParkedLeaseTokens`. -/
def clearParkedLease (db : Db) (row : Job) : Db :=
  if Table.changes (isParkedRow row) db.jobs = 0 then db
  else
    let resumed :=
      consumePendingHumanGateResume (db.updateJobs (isParkedRow row) Job.unlease) row.id
    if resumed.2 then
      (releaseJobLocksForStatus resumed.1 row.id .queued).notify
        { reason := .humanGateResumeAfterParkedLeaseExpiry, jobId := some row.id,
          workItemId := (resumed.1.getJob row.id).bind Job.workItemId }
    else resumed.1

/-- The transaction of `clearExpiredParkedLeaseTokens` over the rows it selected before. -/
def clearParkedLeases (stale : List Job) (db : Db) : Db := stale.foldl clearParkedLease db

/-- `clearExpiredParkedLeaseTokens`. -/
def clearExpiredParkedLeaseTokens (clock : Clock) (db : Db) : Db :=
  clearParkedLeases (db.jobs.filter (isParkedStale clock)) db

/-- An active job whose lease expired more than the grace ago. -/
def isExpired (clock : Clock) (job : Job) : Bool :=
  job.status ∈ activeLeaseStatuses && job.leaseOwner.isSome &&
    job.leaseExpiresAt.any (fun expiresAt => expiresAt < clock.graceCutoff)

/-- The `WHERE` clause of the three updates of `requeueExpiredLeases`, for a row it selected. -/
def isExpiredRow (clock : Clock) (row job : Job) : Bool :=
  job.id == row.id && row.leaseToken.isSome && job.leaseToken == row.leaseToken &&
    isExpired clock job

/-- One row of the transaction of `requeueExpiredLeases`.  `completedPlan` says of a job that it
is a plan whose last attempt succeeded and whose children exist. -/
def requeueExpiredLease (clock : Clock) (completedPlan : ℕ → Bool) (db : Db) (row : Job) : Db :=
  let p := isExpiredRow clock row
  if Table.changes p db.jobs = 0 then db
  else if completedPlan row.id then
    releaseJobLocksForStatus
      (db.updateJobs p (fun j => { j.unlease with
        status := .succeeded, finishedAt := j.finishedAt.or (some clock.now) })) row.id .succeeded
  else if row.jobType = .atlasWarm then
    releaseJobLocksForStatus
      (db.updateJobs p (fun j => { j.unlease with
        status := .failed, finishedAt := some clock.now })) row.id .failed
  else
    let requeued := db.updateJobs p
      (fun j => { j.requeue clock (refundsAttempt db j) with finishedAt := none })
    markAssessOnly
      (releaseJobLocksForStatus (consumePendingHumanGateResume requeued row.id).1 row.id .queued)
      row.id (row.status == .awaitingAssessment)

/-- The transaction of `requeueExpiredLeases` over the rows it selected before, which are of
different jobs, and the wake it ends with if one of them was still expired. -/
def requeueAll (clock : Clock) (completedPlan : ℕ → Bool) (expired : List Job) (db : Db) : Db :=
  let requeued := expired.foldl (requeueExpiredLease clock completedPlan) db
  if expired.any (fun row => 0 < Table.changes (isExpiredRow clock row) db.jobs) then
    requeued.notify { reason := .jobLeaseExpired }
  else requeued

/-- `requeueExpiredLeases`. -/
def requeueExpiredLeases (clock : Clock) (completedPlan : ℕ → Bool) (db : Db) : Db :=
  let cleared := clearExpiredParkedLeaseTokens clock db
  requeueAll clock completedPlan (cleared.jobs.filter (isExpired clock)) cleared

/-- `lock.owner_id === ownerId && lock.expires_at >= ts`, under `force`. -/
def mayForceRequeue (clock : Clock) (db : Db) (force : Bool) (ownerId : Option String)
    (lockName : String) : Bool :=
  force && ownerId.any (fun owner =>
    (Table.lookup SchedulerLock.lockName lockName db.schedulerLocks).any
      (fun lock => lock.ownerId == owner && decide (clock.now ≤ lock.expiresAt)))

/-- The `WHERE` clause of the updates of `requeueOrphanedJobs`, for a row it selected. -/
def isOrphanRow (row job : Job) : Bool :=
  job.id == row.id && job.status == row.status && job.leaseOwner == row.leaseOwner &&
    job.leaseToken == row.leaseToken && job.leaseExpiresAt == row.leaseExpiresAt

/-- One row of the transaction of `requeueOrphanedJobs`; the columns it read are still there,
since the read is in the same transaction. -/
def requeueOrphanedJob (clock : Clock) (db : Db) (row : Job) : Db :=
  let p := isOrphanRow row
  if row.jobType = .atlasWarm then
    db.updateJobs p (fun j => { j.unlease with status := .failed, finishedAt := some clock.now })
  else if Table.changes p db.jobs = 0 then db
  else
    let requeued := db.updateJobs p
      (fun j => { j.requeue clock (refundsAttempt db j) with finishedAt := none })
    markAssessOnly requeued row.id (row.status == .awaitingAssessment)

/-- The candidates of `requeueOrphanedJobs`; without force a job is an orphan as soon as its
lease has expired, with no grace. -/
def orphanedJobs (clock : Clock) (db : Db) (mayForce : Bool) : List Job :=
  db.jobs.filter (fun job => decide (job.status ∈ activeLeaseStatuses) &&
    (mayForce || !job.leaseExpiresAt.any (fun expiresAt => clock.leaseNow ≤ expiresAt)))

/-- The transaction of `requeueOrphanedJobs`, with the rows it changed. -/
def requeueOrphanedRows (clock : Clock) (db : Db) (force : Bool) (ownerId : Option String)
    (lockName : String) : Db × List Job :=
  let orphaned := orphanedJobs clock db (mayForceRequeue clock db force ownerId lockName)
  (orphaned.foldl (requeueOrphanedJob clock) db, orphaned)

/-- `requeueOrphanedJobs`. -/
def requeueOrphanedJobs (clock : Clock) (db : Db) (force : Bool) (ownerId : Option String)
    (lockName : String) : Db :=
  let requeued := requeueOrphanedRows clock db force ownerId lockName
  let settled := requeued.2.foldl
    (fun d row => settleRequeuedJob d row.id
      (if row.jobType = .atlasWarm then .failed else .queued)) requeued.1
  if requeued.2 = [] then settled else settled.notify { reason := .jobOrphanRequeue }

/-! ## 6. Status changes -/

/-- The options of `updateJobStatus`. -/
structure StatusOptions where
  expectedStatuses : List JobStatus := []
  leaseToken : Option ℕ := none
  force : Bool := false
  deriving DecidableEq, Repr

/-- The `WHERE` clause of `updateJobStatus`: without force the token must be the job's, and
without a token the job must have none. -/
def statusUpdateApplies (jobId : ℕ) (options : StatusOptions) (job : Job) : Bool :=
  job.id == jobId && (options.force || job.leaseToken == options.leaseToken) &&
    (options.expectedStatuses == [] || decide (job.status ∈ options.expectedStatuses))

/-- The row `updateJobStatus` writes. -/
def Job.setStatus (clock : Clock) (status : JobStatus) (job : Job) : Job :=
  let kept := if status ∈ leaseHoldingStatuses then job else job.unlease
  { kept with
    status := status
    startedAt := if status = .running then some clock.now else job.startedAt
    finishedAt := if status ∈ terminalJobStatuses then some clock.now else none }

/-- The gate updates of `updateJobStatus` on a `human_input` job. -/
def settleGateOfJob (db : Db) (jobId : ℕ) (status : JobStatus) : Db :=
  let settle := fun state : GateState => db.updateHumanGates
    (fun gate => gate.gateJobId == jobId && gate.gateState ∈ activeGateStates)
    (fun gate => { gate with gateState := state, resolverLeaseToken := none })
  match status with
  | .succeeded => settle .resolved
  | .canceled => settle .superseded
  | _ => db

/-- `updateJobStatus`. -/
def updateJobStatus (clock : Clock) (db : Db) (jobId : ℕ) (status : JobStatus)
    (options : StatusOptions) : Db × Bool :=
  let p := statusUpdateApplies jobId options
  if Table.changes p db.jobs = 0 then (db, false)
  else
    let updated := db.updateJobs p (Job.setStatus clock status)
    let isGate := (updated.getJob jobId).any (fun job => job.jobType == .humanInput)
    let settled := if isGate then settleGateOfJob updated jobId status else updated
    let rolledBack := if status ∈ [JobStatus.deadLetter, JobStatus.canceled] then
      cancelUnusedReviewedTransfers settled jobId else settled
    ((releaseJobLocksForStatus rolledBack jobId status).notify
      { reason := .jobStatus status, jobId := some jobId,
        workItemId := (updated.getJob jobId).bind Job.workItemId }, true)

end PosseClient
