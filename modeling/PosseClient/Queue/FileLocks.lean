/-
# File locks: scopes, conflicts, acquisition and release

`file-locks.js`.  A work item holds rows of `work_item_file_locks` from the first lease of a
job that writes the path until it merges, fails or is canceled; a job holds rows of
`job_file_locks` while it runs.  Whether a job may start is decided against the work-item rows
of the other work items and against what the jobs of its own work item hold by their status
(`activeJobLocks`), not against `job_file_locks`.

* `findWriteLockConflict` and `reviewedAdmissionForJob` are the two gates a lease passes.
* `acquireLeaseWithWriteLocks_cases` says everything a lease does: nothing but a cleanup of
  stale rows, or a passed gate, the transfers it reserves and the rows it inserts.
* The order of the work items, the review receipts and the proofs of provenance are decided by
  other modules of the source; here they are the `AdmissionEnv` of the operation, which may
  refuse anything.
-/
import PosseClient.Scope.Path
import PosseClient.Lib.Reachability
import PosseClient.Queue.AdmissionBudget

namespace PosseClient

/-! ## 1. Scopes -/

/-- `hasReviewedReservation`. -/
def hasReviewedReservation (job : Job) : Bool :=
  job.payload.crossWiFileSyncs.any
    (fun entry => entry.state ∉ [TransferState.applied, TransferState.canceled])

/-- `jobIsDbOnly`. -/
def jobIsDbOnly (job : Job) : Bool := job.payload.taskMode == some "db"

/-- `jobCanUseAssessmentBarrier`. -/
def jobCanUseAssessmentBarrier (job : Job) : Bool :=
  job.jobType ∈ queueLockingJobTypes && !jobIsDbOnly job

/-- `jobNeedsAssessmentBarrier`. -/
def jobNeedsAssessmentBarrier (job : Job) : Bool :=
  jobCanUseAssessmentBarrier job &&
    (job.payload.assessOnly || job.status == .awaitingAssessment)

/-- `jobNeedsWriteLocks`. -/
def jobNeedsWriteLocks (job : Job) : Bool := jobCanUseAssessmentBarrier job

/-- A write scope. -/
structure WriteScope where
  files : List String := []
  roots : List String := []
  unknown : Bool := false
  assessmentBarrier : Bool := false
  deriving DecidableEq, Repr

/-- `hasWriteScope`. -/
def hasWriteScope (scope : WriteScope) : Bool := scope.files != [] || scope.roots != []

/-- `getJobPathTouchScope`. -/
def getJobPathTouchScope (job : Job) : WriteScope :=
  let scope : WriteScope := { files := job.payload.files, roots := job.payload.roots }
  if jobNeedsWriteLocks job && !hasWriteScope scope then { roots := ["*"], unknown := true }
  else scope

/-- `getJobWriteScope`. -/
def getJobWriteScope (job : Job) : WriteScope :=
  if jobNeedsAssessmentBarrier job then { roots := ["*"], assessmentBarrier := true }
  else getJobPathTouchScope job

/-- `scopeToLockRows`. -/
def scopeToLockRows (scope : WriteScope) : List LockRow :=
  scope.files.map (⟨·, .file⟩) ++ scope.roots.map (⟨·, .root⟩)

/-! ## 2. What is held -/

/-- A lock a conflict check looks at: `jobId` is the job it belongs to or was taken by. -/
structure HeldLock where
  jobId : Option ℕ
  workItemId : Option ℕ
  row : LockRow
  jobStatus : Option JobStatus := none
  reviewedReservation : Bool := false
  assessmentBarrier : Bool := false
  deriving DecidableEq, Repr

/-- `String(branch_name || "").trim()` is not empty. -/
def WorkItem.hasBranch (wi : WorkItem) : Bool :=
  (wi.branchName.getD "").toList.any (fun c => !c.isWhitespace)

/-- `completeWorkItemHoldsFileLocks`. -/
def completeWorkItemHoldsFileLocks (wi : WorkItem) : Bool :=
  wi.status == .complete && wi.hasBranch &&
    wi.mergeState.any (· ∈ unmergedWorkItemMergeStates)

/-- The conditions of `activeWiLocks` and of the cleanup on the work item of a lock. -/
def workItemHoldsFileLocks (wi : WorkItem) : Bool :=
  wi.status ∉ wiLockReleaseStatuses &&
    (wi.status != .complete ||
      (wi.hasBranch && wi.mergeState.any (· ∈ unmergedWorkItemMergeStates))) &&
    wi.mergeState != some .merged

/-- The row of a lock of a work item. -/
def WorkItemFileLock.row (lock : WorkItemFileLock) : LockRow := ⟨lock.path, lock.lockKind⟩

/-- `l.source_job_id IS NULL OR j.job_type IN (..)`. -/
def sourceJobLocks (db : Db) (lock : WorkItemFileLock) : Bool :=
  match lock.sourceJobId with
  | none => true
  | some jobId => (db.getJob jobId).any (fun job => job.jobType ∈ queueLockingJobTypes)

/-- The `WHERE` clause of `activeWiLocks`. -/
def isActiveWiLock (db : Db) (lock : WorkItemFileLock) : Bool :=
  lock.releaseReason.isNone &&
    (db.getWorkItem lock.workItemId).any workItemHoldsFileLocks && sourceJobLocks db lock

/-- `activeWiLocks`. -/
def activeWiLocks (db : Db) : List HeldLock :=
  (db.workItemFileLocks.filter (isActiveWiLock db)).map
    (fun lock => ⟨lock.sourceJobId, some lock.workItemId, lock.row, none, false, false⟩)

/-- `isActiveInnerLockJob`. -/
def isActiveInnerLockJob (job : Job) : Bool :=
  if hasReviewedReservation job then true
  else if !jobNeedsWriteLocks job then false
  else if jobNeedsAssessmentBarrier job then job.status ∈ activeLeaseStatuses
  else if job.status ∈ activeInnerLockStatuses then true
  else if job.status = .queued then
    job.jobType ∈ queuedRepairLockJobTypes || 0 < job.attemptCount
  else false

/-- The rows one job contributes to `activeJobLocks`. -/
def jobLockRows (usePathTouchScope : Bool) (job : Job) : List LockRow :=
  let scope := if usePathTouchScope then getJobPathTouchScope job else getJobWriteScope job
  let transferred := job.payload.crossWiFileSyncs.flatMap ReviewedTransfer.files
  scopeToLockRows { scope with files := (scope.files ++ transferred).eraseDups }

/-- `activeJobLocks`; without a work item it looks at every job. -/
def activeJobLocks (db : Db) (workItemId : Option ℕ) (usePathTouchScope : Bool) :
    List HeldLock :=
  (db.jobs.filter (fun job => decide (job.jobType ∈ queueLockingJobTypes) &&
      (workItemId.isNone || job.workItemId == workItemId) && isActiveInnerLockJob job)).flatMap
    (fun job => (jobLockRows usePathTouchScope job).map
      (fun row => ⟨some job.id, job.workItemId, row, some job.status,
        hasReviewedReservation job, jobNeedsAssessmentBarrier job⟩))

/-! ## 3. Conflicts -/

/-- The options of `locksConflict`. -/
structure ConflictOptions where
  allowWorkItemId : Option ℕ := none
  allowJobId : Option ℕ := none
  allowJobIds : Finset ℕ := ∅
  ignoreSameWorkItemLocks : Bool := false

/-- The locks `locksConflict` skips. -/
def ConflictOptions.skips (options : ConflictOptions) (lock : HeldLock) : Bool :=
  (options.ignoreSameWorkItemLocks && options.allowWorkItemId.isSome &&
      lock.workItemId == options.allowWorkItemId) ||
    (options.allowJobId.isSome && lock.jobId == options.allowJobId) ||
    (!lock.reviewedReservation &&
      lock.jobId.any (fun id => id ∈ options.allowJobIds || some id = options.allowJobId))

/-- `locksConflict`: the first lock that is not skipped and meets the scope. -/
def locksConflict (scope : WriteScope) (locks : List HeldLock) (options : ConflictOptions) :
    Option HeldLock :=
  locks.find? (fun lock => !options.skips lock &&
    (scopeToLockRows scope).any (fun candidate => lock.row.conflict candidate))

/-- `ancestorJobIdsForJob`. -/
def ancestorJobIdsForJob (db : Db) (job : Job) : Finset ℕ :=
  match job.parentJobId with
  | none => ∅
  | some parentId =>
    insert parentId (Reachability.reach
      (db.jobs.filterMap (fun j => j.parentJobId.map (j.id, ·))) parentId)

/-- `unmetHardDependencyPredecessorJobIdsForJob`. -/
def unmetHardDependencyPredecessorJobIdsForJob (db : Db) (job : Job) : Finset ℕ :=
  (Reachability.reach
    ((db.dependencies.filter (fun d => d.kind = .hard)).map (fun d => (d.jobId, d.dependsOnJobId)))
    job.id).filter (fun id => (db.getJob id).any (fun j => j.status ≠ .succeeded))

/-- `queuedCohortJobIdsForJob`. -/
def queuedCohortJobIdsForJob (db : Db) (job : Job) : Finset ℕ :=
  match job.parentJobId with
  | none => ∅
  | some parentId =>
    ((db.jobs.filter (fun j => j.parentJobId = some parentId ∧ j.id ≠ job.id ∧
      j.status = .queued ∧ j.jobType ∈ queueLockingJobTypes)).map Job.id).toFinset

/-- `queuedDependentJobIdsForJob`. -/
def queuedDependentJobIdsForJob (db : Db) (job : Job) : Finset ℕ :=
  (Reachability.reach
    ((db.dependencies.filter
        (fun d => (db.getJob d.jobId).any (fun j => j.status = .queued))).map
      (fun d => (d.dependsOnJobId, d.jobId))) job.id).erase job.id

/-- What an operation learns from the modules that are not modelled here: the settings, the
work-item order, the review receipts of a source work item and the outcome of the other checks
of a reviewed admission. -/
structure AdmissionEnv where
  reviewedHandoffsEnabled : Bool := false
  exactReviewedPath : String → Bool := fun _ => true
  blockedReviewedReservation : Db → Job → Bool := fun _ _ => false
  workItemOrderConflict : Db → Job → Bool := fun _ _ => false
  reviewedWait : Db → Job → Bool := fun _ _ => false
  reviewedCompletion : Db → ℕ → String → Option (ℕ × List String) := fun _ _ _ => none
  dependencyRejected : Db → Job → Bool := fun _ _ => false
  operatorParked : Db → ℕ → Bool := fun _ _ => false

/-- Why a write scope is refused. -/
inductive WriteLockConflict
  | workItem (lock : HeldLock)
  | job (lock : HeldLock)
  | workItemOrder
  | reviewedHandoff
  deriving DecidableEq, Repr

/-- `findOrdinaryWriteLockConflict` over a given projection of the work-item locks. -/
def findOrdinaryWriteLockConflict (env : AdmissionEnv) (db : Db) (job : Job)
    (scope : WriteScope) (workItemLocks : List HeldLock) (workItemOrder : Bool) :
    Option WriteLockConflict :=
  if !jobNeedsWriteLocks job || !hasWriteScope scope then none
  else if !jobNeedsAssessmentBarrier job && workItemOrder && env.workItemOrderConflict db job then
    some .workItemOrder
  else
    let wiConflict := if jobNeedsAssessmentBarrier job then none
      else locksConflict scope workItemLocks
        { allowWorkItemId := job.workItemId, ignoreSameWorkItemLocks := true }
    match wiConflict with
    | some lock => some (.workItem lock)
    | none =>
      let reservations := (activeJobLocks db none false).filter
        (fun lock => lock.workItemId ≠ job.workItemId ∧ lock.reviewedReservation)
      match locksConflict scope reservations { allowJobId := some job.id } with
      | some lock => some (.job lock)
      | none =>
        let allowJobIds := ancestorJobIdsForJob db job ∪ queuedCohortJobIdsForJob db job ∪
          queuedDependentJobIdsForJob db job
        (locksConflict scope (activeJobLocks db job.workItemId false)
          { allowJobId := some job.id, allowJobIds := allowJobIds,
            allowWorkItemId := job.workItemId }).map .job

/-- `usesReviewedAdmission`. -/
def usesReviewedAdmission (env : AdmissionEnv) (job : Job) (scope : WriteScope) : Bool :=
  (env.reviewedHandoffsEnabled || hasReviewedReservation job) &&
    (job.jobType ∈ [JobType.dev, JobType.fix]) && job.payload.taskMode ∈ [none, some "code"] &&
    !scope.assessmentBarrier && !scope.unknown && scope.files != [] && scope.roots == [] &&
    scope.files.all env.exactReviewedPath

/-- The transfer that covers one path of the scope, if its only holder is a file lock of a work
item with a receipt for it: every file of the receipt that the scope asks for and the holder
still locks. -/
def reviewedTransferFor (env : AdmissionEnv) (db : Db) (job : Job) (scope : WriteScope)
    (path : String) : Except WriteLockConflict (Option ReviewedTransfer) :=
  let holders := (activeWiLocks db).filter
    (fun lock => lock.workItemId ≠ job.workItemId ∧ lock.row.conflict ⟨path, .file⟩)
  match holders with
  | [] => .ok none
  | [holder] =>
    match holder.row.lockKind, holder.workItemId.bind db.getWorkItem with
    | .file, some source =>
      if !env.reviewedHandoffsEnabled then .error .reviewedHandoff
      else match env.reviewedCompletion db source.id path with
        | some (receiptId, files) =>
          if path ∈ files then
            .ok (some {
              transferId := 0, receiptId := receiptId, sourceWorkItemId := source.id,
              sourceGeneration := source.generation,
              files := files.filter (fun file => file ∈ scope.files ∧
                (activeWiLocks db).any (fun lock =>
                  lock.workItemId == some source.id && lock.row == ⟨file, .file⟩)) })
          else .error .reviewedHandoff
        | none => .error .reviewedHandoff
    | _, _ => .error .reviewedHandoff
  | _ => .error .reviewedHandoff

/-- `reviewedAdmissionForJob`: the transfers that make the scope free, or a wait. -/
def reviewedAdmissionForJob (env : AdmissionEnv) (db : Db) (job : Job) (scope : WriteScope) :
    Except WriteLockConflict (List ReviewedTransfer) :=
  match findOrdinaryWriteLockConflict env db job scope [] false with
  | some conflict => .error conflict
  | none =>
    if env.blockedReviewedReservation db job || env.reviewedWait db job then
      .error .reviewedHandoff
    else do
      let proposals ← scope.files.mapM (reviewedTransferFor env db job scope)
      let transfers := proposals.reduceOption.eraseDups
      -- one file is not imported under two receipts
      if transfers.any (fun t => transfers.any (fun u =>
          t.receiptId != u.receiptId && t.files.any (· ∈ u.files))) then .error .reviewedHandoff
      else return transfers

/-- `findWriteLockConflict`. -/
def findWriteLockConflict (env : AdmissionEnv) (db : Db) (job : Job) (scope : WriteScope)
    (workItemOrder : Bool) : Option WriteLockConflict :=
  if env.blockedReviewedReservation db job then some .reviewedHandoff
  else if workItemOrder && usesReviewedAdmission env job scope then
    match reviewedAdmissionForJob env db job scope with
    | .error conflict => some conflict
    | .ok _ => none
  else findOrdinaryWriteLockConflict env db job scope (activeWiLocks db) workItemOrder

/-! ## 4. Releasing -/

/-- The rows of one job that it still holds. -/
def JobFileLock.heldBy (jobId : ℕ) (lock : JobFileLock) : Bool :=
  lock.jobId == jobId && lock.releaseReason.isNone

/-- The rows of one work item that it still holds. -/
def WorkItemFileLock.heldBy (workItemId : ℕ) (lock : WorkItemFileLock) : Bool :=
  lock.workItemId == workItemId && lock.releaseReason.isNone

/-- `UPDATE job_file_locks SET released_at, release_reason WHERE p`, with the wake of a
statement that released something. -/
def releaseJobRows (db : Db) (p : JobFileLock → Bool) (reason : ReleaseReason)
    (wake : Wake) : Db :=
  let db' := db.updateJobFileLocks p (fun lock => { lock with releaseReason := some reason })
  if 0 < Table.changes p db.jobFileLocks then db'.notify wake else db'

/-- `UPDATE work_item_file_locks SET released_at, release_reason WHERE p`, with the wake of a
statement that released something. -/
def releaseWorkItemRows (db : Db) (p : WorkItemFileLock → Bool) (reason : ReleaseReason)
    (wake : Wake) : Db :=
  let db' := db.updateWorkItemFileLocks p (fun lock => { lock with releaseReason := some reason })
  if 0 < Table.changes p db.workItemFileLocks then db'.notify wake else db'

/-- `releaseJobFileLocks`: a job with a reviewed reservation keeps its rows. -/
def releaseJobFileLocks (db : Db) (jobId : ℕ) (reason : ReleaseReason) : Db :=
  if (db.getJob jobId).any hasReviewedReservation then db
  else releaseJobRows db (JobFileLock.heldBy jobId) reason
    { reason := .jobLocksReleased reason, jobId := some jobId }

/-- `releaseWorkItemFileLocks`. -/
def releaseWorkItemFileLocks (db : Db) (workItemId : ℕ) (reason : ReleaseReason) : Db :=
  releaseWorkItemRows db (WorkItemFileLock.heldBy workItemId) reason
    { reason := .workItemLocksReleased reason, workItemId := some workItemId }

/-- `releaseWorkItemFileLocksForSourceJob`. -/
def releaseWorkItemFileLocksForSourceJob (db : Db) (jobId : ℕ) (reason : ReleaseReason) : Db :=
  releaseWorkItemRows db (fun lock => lock.sourceJobId == some jobId && lock.releaseReason.isNone)
    reason { reason := .workItemLocksReleased reason, jobId := some jobId }

/-- The rows `releaseWorkItemFileLockForPath` releases. -/
def WorkItemFileLock.heldAt (workItemId : ℕ) (row : LockRow) (lock : WorkItemFileLock) : Bool :=
  lock.heldBy workItemId && lock.row == row

/-- `releaseWorkItemFileLockForPath`, with the number of released rows. -/
def releaseWorkItemFileLockForPath (db : Db) (workItemId : ℕ) (path : String)
    (lockKind : LockKind) (reason : ReleaseReason) : Db × ℕ :=
  let normalizedPath := normalizeLockPath path
  if normalizedPath = "" then (db, 0)
  else
    let p := WorkItemFileLock.heldAt workItemId ⟨normalizedPath, lockKind⟩
    (releaseWorkItemRows db p reason
      { reason := .workItemLockReleased reason, workItemId := some workItemId,
        path := some normalizedPath, lockKind := some lockKind },
      Table.changes p db.workItemFileLocks)

/-- `releaseJobLocksForStatus`. -/
def releaseJobLocksForStatus (db : Db) (jobId : ℕ) (status : JobStatus) : Db :=
  if status ∈ jobLockReleaseStatuses then releaseJobFileLocks db jobId (.jobStatus status) else db

/-- `releaseWorkItemLocksForStatus`. -/
def releaseWorkItemLocksForStatus (db : Db) (workItemId : ℕ) (status : WorkItemStatus) : Db :=
  if status ∈ wiLockReleaseStatuses then
    releaseWorkItemFileLocks db workItemId (.workItemStatus status)
  else db

/-- A job row the cleanup releases: its job is gone or does not hold locks. -/
def isStaleJobLock (db : Db) (lock : JobFileLock) : Bool :=
  lock.releaseReason.isNone &&
    !(db.getJob lock.jobId).any (fun job => job.status ∈ activeInnerLockStatuses)

/-- A work-item row the cleanup releases: its work item is gone or does not hold locks. -/
def isStaleWiLock (db : Db) (lock : WorkItemFileLock) : Bool :=
  lock.releaseReason.isNone && !(db.getWorkItem lock.workItemId).any workItemHoldsFileLocks

/-- The rows `cleanupStaleFileLocks` releases, of both tables. -/
def staleFileLockCount (db : Db) : ℕ :=
  Table.changes (isStaleJobLock db) db.jobFileLocks +
    Table.changes (isStaleWiLock db) db.workItemFileLocks

/-- `cleanupStaleFileLocks`. -/
def cleanupStaleFileLocks (db : Db) : Db :=
  let db' := { db with
    jobFileLocks := Table.updateWhere (isStaleJobLock db)
      (fun lock => { lock with releaseReason := some .staleJobLockCleanup }) db.jobFileLocks
    workItemFileLocks := Table.updateWhere (isStaleWiLock db)
      (fun lock => { lock with releaseReason := some .staleWiLockCleanup })
      db.workItemFileLocks }
  if 0 < staleFileLockCount db then db'.notify { reason := .staleFileLocksReleased } else db'

/-! ## 5. Inserting -/

/-- `INSERT OR IGNORE INTO work_item_file_locks`: one held row for each work item, path and
kind. -/
def insertWorkItemFileLock (db : Db) (lock : WorkItemFileLock) : Db :=
  if db.workItemFileLocks.any (WorkItemFileLock.heldAt lock.workItemId lock.row) then db
  else { db with workItemFileLocks := db.workItemFileLocks ++ [lock] }

/-- `INSERT OR IGNORE INTO job_file_locks`: one held row for each job, path and kind. -/
def insertJobFileLock (db : Db) (lock : JobFileLock) : Db :=
  if db.jobFileLocks.any (fun l => l.heldBy lock.jobId && l.path == lock.path &&
      l.lockKind == lock.lockKind) then db
  else { db with jobFileLocks := db.jobFileLocks ++ [lock] }

/-- `insertMissingWiLocks`.  A job without a work item inserts nothing: the column is not
nullable and the statement ignores the row. -/
def insertMissingWiLocks (db : Db) (job : Job) (scope : WriteScope) (leaseToken : Option ℕ) : Db :=
  match job.workItemId.bind db.getWorkItem with
  | none => db
  | some wi =>
    if wi.mergeState = some .merged then db
    else if wi.status = .complete ∧ completeWorkItemHoldsFileLocks wi = false then db
    else (scopeToLockRows scope).foldl
      (fun d row => insertWorkItemFileLock d
        { workItemId := wi.id, path := row.path, lockKind := row.lockKind,
          sourceJobId := some job.id, leaseToken := leaseToken }) db

/-- `insertJobLocks`. -/
def insertJobLocks (db : Db) (job : Job) (scope : WriteScope) : Db :=
  match job.workItemId with
  | none => db
  | some workItemId => (scopeToLockRows scope).foldl
      (fun d row => insertJobFileLock d
        { jobId := job.id, workItemId := workItemId, path := row.path,
          lockKind := row.lockKind }) db

/-! ## 6. Acquiring -/

/-- The clocks an operation reads: `now`, `leaseNowMs` and the grace of an expired lease. -/
structure Clock where
  now : ℤ
  leaseNow : ℤ
  grace : ℕ
  deriving DecidableEq, Repr

/-- `graceCutoff`. -/
def Clock.graceCutoff (clock : Clock) : ℤ := clock.leaseNow - clock.grace

/-- The condition every writer under a lease checks, `isLeaseValid`: the token is the job's,
the status holds a lease, and the lease expired less than the grace ago. -/
def leaseIsValid (clock : Clock) (leaseToken : ℕ) (job : Job) : Bool :=
  job.leaseToken == some leaseToken && job.status ∈ leaseHoldingStatuses &&
    job.leaseExpiresAt.any (fun expiresAt => clock.graceCutoff ≤ expiresAt)

/-- A conflict check that is made again after a cleanup of stale rows released something: the
database after it and whether a conflict remains. -/
def conflictAfterCleanup (db : Db) (conflict : Db → Option WriteLockConflict) : Db × Bool :=
  if (conflict db).isNone then (db, false)
  else
    let cleaned := cleanupStaleFileLocks db
    if 0 < staleFileLockCount db then (cleaned, (conflict cleaned).isSome) else (cleaned, true)

/-- The rows the sources of reserved transfers give up: exactly the files of each transfer. -/
def releaseTransferredFiles (db : Db) (transfers : List ReviewedTransfer) : Db :=
  transfers.foldl (fun d t => t.files.foldl
    (fun d file => d.updateWorkItemFileLocks
      (WorkItemFileLock.heldAt t.sourceWorkItemId ⟨file, .file⟩)
      (fun lock => { lock with releaseReason := some .reviewedHandoff })) d) db

/-- The ids of reserved transfers are the draws that follow those made so far. -/
def numberTransfers (db : Db) (transfers : List ReviewedTransfer) : List ReviewedTransfer :=
  transfers.mapIdx (fun i t => { t with transferId := db.nextToken + i })

/-- `reserveReviewedHandoffs`: the sources give up the files of each transfer, and the job's
payload records it. -/
def reserveReviewedHandoffs (db : Db) (job : Job) (transfers : List ReviewedTransfer) : Db :=
  if transfers = [] then db
  else
    let reserved := numberTransfers db transfers
    let journaled := (releaseTransferredFiles db reserved).updateJobs (fun j => j.id == job.id)
      (fun j => { j with payload := { job.payload with
        crossWiFileSyncs := job.payload.crossWiFileSyncs ++ reserved } })
    (journaled.drawTokens transfers.length).notify
      { reason := .reviewedHandoff "reserved", jobId := some job.id,
        workItemId := job.workItemId }

/-- The write of a fresh lease on a queued job. -/
def Job.lease (job : Job) (ownerId : String) (leaseToken : ℕ) (expiresAt : ℤ) : Job :=
  { job with
    status := .leased, leaseOwner := some ownerId, leaseToken := some leaseToken,
    leaseExpiresAt := some expiresAt }

/-- `UPDATE jobs SET status = 'leased', .. WHERE id = ? AND status = 'queued'`, with a token
drawn for it. -/
def leaseQueuedJob (clock : Clock) (db : Db) (jobId : ℕ) (ownerId : String) (durationMs : ℤ) :
    Db :=
  (db.updateJobs (fun j => j.id == jobId && j.status == .queued)
    (fun j => j.lease ownerId db.nextToken (clock.leaseNow + durationMs))).drawTokens 1

/-- The rows a lease inserts: a barrier takes none for its work item. -/
def insertLeaseLocks (db : Db) (fresh : Job) (scope : WriteScope) (leaseToken : ℕ) : Db :=
  if jobNeedsWriteLocks fresh && hasWriteScope scope then
    insertJobLocks
      (if jobNeedsAssessmentBarrier fresh then db
      else insertMissingWiLocks db fresh scope (some leaseToken)) fresh scope
  else db

/-- What `acquireLeaseWithWriteLocks` does once every check has passed. -/
def leaseWithLocks (clock : Clock) (db : Db) (fresh : Job) (scope : WriteScope)
    (transfers : List ReviewedTransfer) (ownerId : String) (durationMs : ℤ) : Db × Option ℕ :=
  (insertLeaseLocks
    (reserveReviewedHandoffs (leaseQueuedJob clock db fresh.id ownerId durationMs) fresh transfers)
    fresh scope db.nextToken, some db.nextToken)

/-- The scope a lease is checked and locked for; a job that takes no write locks has none. -/
def leaseScope (job : Job) : WriteScope :=
  if jobNeedsWriteLocks job then getJobWriteScope job else {}

/-- The conflict check of a lease: the database after a possible cleanup, and whether it
refuses. -/
def checkLeaseScope (env : AdmissionEnv) (db : Db) (job : Job) : Db × Bool :=
  if jobNeedsWriteLocks job && hasWriteScope (leaseScope job) then
    conflictAfterCleanup db (findWriteLockConflict env · job (leaseScope job) true)
  else (db, false)

/-- The second gate of a lease: the transfers of a reviewed admission, where one is used. -/
def admitTransfers (env : AdmissionEnv) (db : Db) (job : Job) (scope : WriteScope) :
    Except WriteLockConflict (List ReviewedTransfer) :=
  if usesReviewedAdmission env job scope then reviewedAdmissionForJob env db job scope else .ok []

/-- `acquireLeaseWithWriteLocks`, from the job's id: the cached job and scope of the scheduler
are not authority. -/
def acquireLeaseWithWriteLocks (env : AdmissionEnv) (clock : Clock) (db : Db) (jobId : ℕ)
    (ownerId : String) (durationMs : ℤ) : Db × Option ℕ :=
  match db.getJob jobId with
  | none => (db, none)
  | some fresh =>
    if fresh.status ≠ .queued ∨ isBudgetPaused db fresh.workItemId then (db, none)
    else if fresh.readyAt.any (fun readyAt => clock.now < readyAt) ∨
        unmetHardDependencyPredecessorJobIdsForJob db fresh ≠ ∅ then (db, none)
    else
      let checked := checkLeaseScope env db fresh
      if checked.2 then (checked.1, none)
      else match admitTransfers env checked.1 fresh (leaseScope fresh) with
        | .error _ => (checked.1, none)
        | .ok transfers =>
          -- a rejected merge dependency throws and rolls everything back
          if transfers ≠ [] ∧ env.dependencyRejected checked.1 fresh then (db, none)
          else leaseWithLocks clock checked.1 fresh (leaseScope fresh) transfers ownerId durationMs

/-- `UPDATE jobs SET status = ? WHERE id = ? AND lease_token = ? AND status IN (..)`. -/
def setLeasedStatus (db : Db) (jobId leaseToken : ℕ) (status : JobStatus) : Db :=
  db.updateJobs (fun j => j.id == jobId && j.leaseToken == some leaseToken &&
    j.status ∈ leaseHoldingStatuses) (fun j => { j with status := status })

/-- The live jobs of the work item that hold a lock: what an assessment barrier excludes. -/
def siblingWriters (db : Db) (job : Job) : List HeldLock :=
  (activeJobLocks db job.workItemId false).filter (fun lock =>
    lock.jobId ≠ some job.id ∧ lock.jobStatus ≠ some .queued ∧
      ∀ s ∈ parkedJobStatuses, lock.jobStatus ≠ some s)

/-- The writes of `acquireAssessmentBarrier`. -/
def raiseAssessmentBarrier (db : Db) (fresh : Job) (leaseToken : ℕ) (status : JobStatus) : Db :=
  let updated := setLeasedStatus db fresh.id leaseToken status
  if jobCanUseAssessmentBarrier fresh then
    insertJobLocks updated { fresh with status := status } { roots := ["*"] }
  else updated

/-- `acquireAssessmentBarrier`; the answer is whether the barrier was acquired. -/
def acquireAssessmentBarrier (clock : Clock) (db : Db) (jobId leaseToken : ℕ)
    (preserveStatus : Bool) : Db × Bool :=
  match db.getJob jobId with
  | none => (db, false)
  | some fresh =>
    if leaseIsValid clock leaseToken fresh = false then (db, false)
    else if jobCanUseAssessmentBarrier fresh = true ∧ siblingWriters db fresh ≠ [] then (db, false)
    else if preserveStatus then (raiseAssessmentBarrier db fresh leaseToken fresh.status, true)
    else ((raiseAssessmentBarrier db fresh leaseToken .awaitingAssessment).notify
      { reason := .jobStatus .awaitingAssessment, jobId := some jobId }, true)

/-- `jobHoldsWriteLockForPath`. -/
def jobHoldsWriteLockForPath (db : Db) (jobId : ℕ) (filePath : String) : Bool :=
  let target := normalizeLockPath filePath
  target != "" && db.jobFileLocks.any (fun lock =>
    let lockPath := normalizeLockPath lock.path
    lock.heldBy jobId && lockPath != "" && (lockPath == "*" ||
      match lock.lockKind with
      | .file => lockPath == target
      | .root => target == lockPath || isUnderRoot target [lockPath]))

/-- `verifyOrAcquireJobWriteLockForPath`; the answer is whether the write may proceed. -/
def verifyOrAcquireJobWriteLockForPath (env : AdmissionEnv) (db : Db) (jobId : ℕ)
    (filePath : String) : Db × Bool :=
  let target := normalizeLockPath filePath
  match db.getJob jobId with
  | none => (db, true)
  | some job =>
    if target = "" ∨ jobNeedsWriteLocks job = false ∨ jobHoldsWriteLockForPath db jobId target then
      (db, true)
    else
      let scope : WriteScope := { files := [target] }
      let checked := conflictAfterCleanup db (findWriteLockConflict env · job scope false)
      if checked.2 then (checked.1, false)
      else (insertJobLocks (insertMissingWiLocks checked.1 job scope none) job scope, true)

/-- `acquireAdditionalJobWritePaths`; the answer is `ok`. -/
def acquireAdditionalJobWritePaths (env : AdmissionEnv) (db : Db) (jobId : ℕ)
    (paths : List String) : Db × Bool :=
  match db.getJob jobId with
  | none => (db, true)
  | some job =>
    if jobNeedsWriteLocks job = false then (db, true)
    else if job.leaseToken.isNone ∨ job.status ∉ activeInnerLockStatuses then (db, true)
    else
      let scope : WriteScope :=
        { files := ((paths.map normalizeLockPath).filter (· ≠ "")).eraseDups }
      if scope.files.length ≠ paths.eraseDups.length then (db, false)
      else
        match admitTransfers env db job scope with
        | .error _ => (db, false)
        | .ok transfers =>
          let ordinary :=
            findOrdinaryWriteLockConflict env db job scope (activeWiLocks db) false
          if ordinary.isSome ∨ transfers ≠ [] then (db, false)
          else (insertJobLocks (insertMissingWiLocks db job scope job.leaseToken) job scope, true)

/-! ## 7. What the lock functions leave unchanged -/

/-- The two databases differ at most in their lock rows and wakes. -/
structure LocksOnly (db db' : Db) : Prop where
  workItems : db'.workItems = db.workItems
  jobs : db'.jobs = db.jobs
  attempts : db'.attempts = db.attempts
  dependencies : db'.dependencies = db.dependencies
  budgets : db'.budgets = db.budgets
  humanGates : db'.humanGates = db.humanGates
  humanGateOutbox : db'.humanGateOutbox = db.humanGateOutbox
  nextToken : db'.nextToken = db.nextToken

theorem LocksOnly.refl (db : Db) : LocksOnly db db := ⟨rfl, rfl, rfl, rfl, rfl, rfl, rfl, rfl⟩

theorem LocksOnly.trans {a b c : Db} (h : LocksOnly a b) (h' : LocksOnly b c) : LocksOnly a c :=
  ⟨h'.workItems.trans h.workItems, h'.jobs.trans h.jobs, h'.attempts.trans h.attempts,
    h'.dependencies.trans h.dependencies, h'.budgets.trans h.budgets,
    h'.humanGates.trans h.humanGates, h'.humanGateOutbox.trans h.humanGateOutbox,
    h'.nextToken.trans h.nextToken⟩

theorem LocksOnly.getJob {db db' : Db} (h : LocksOnly db db') (id : ℕ) :
    db'.getJob id = db.getJob id := by
  unfold Db.getJob
  rw [h.jobs]

theorem locksOnly_notify (db : Db) (wake : Wake) : LocksOnly db (db.notify wake) :=
  ⟨rfl, rfl, rfl, rfl, rfl, rfl, rfl, rfl⟩

theorem locksOnly_updateWorkItemFileLocks (db : Db) (p : WorkItemFileLock → Bool)
    (f : WorkItemFileLock → WorkItemFileLock) : LocksOnly db (db.updateWorkItemFileLocks p f) :=
  ⟨rfl, rfl, rfl, rfl, rfl, rfl, rfl, rfl⟩

theorem locksOnly_foldl {α : Type} {step : Db → α → Db} (hstep : ∀ d a, LocksOnly d (step d a)) :
    ∀ (as : List α) (db : Db), LocksOnly db (as.foldl step db)
  | [], db => LocksOnly.refl db
  | a :: as, db => (hstep db a).trans (locksOnly_foldl hstep as (step db a))

theorem locksOnly_releaseTransferredFiles (db : Db) (transfers : List ReviewedTransfer) :
    LocksOnly db (releaseTransferredFiles db transfers) := by
  unfold releaseTransferredFiles
  refine locksOnly_foldl (fun d t => ?_) transfers db
  exact locksOnly_foldl (fun d file => locksOnly_updateWorkItemFileLocks d _ _) t.files d

theorem locksOnly_releaseJobRows (db : Db) (p : JobFileLock → Bool) (reason : ReleaseReason)
    (wake : Wake) : LocksOnly db (releaseJobRows db p reason wake) := by
  unfold releaseJobRows
  dsimp only
  split
  · exact ⟨rfl, rfl, rfl, rfl, rfl, rfl, rfl, rfl⟩
  · exact ⟨rfl, rfl, rfl, rfl, rfl, rfl, rfl, rfl⟩

theorem locksOnly_releaseWorkItemRows (db : Db) (p : WorkItemFileLock → Bool)
    (reason : ReleaseReason) (wake : Wake) :
    LocksOnly db (releaseWorkItemRows db p reason wake) := by
  unfold releaseWorkItemRows
  dsimp only
  split
  · exact ⟨rfl, rfl, rfl, rfl, rfl, rfl, rfl, rfl⟩
  · exact ⟨rfl, rfl, rfl, rfl, rfl, rfl, rfl, rfl⟩

theorem locksOnly_releaseJobFileLocks (db : Db) (jobId : ℕ) (reason : ReleaseReason) :
    LocksOnly db (releaseJobFileLocks db jobId reason) := by
  unfold releaseJobFileLocks
  split
  · exact LocksOnly.refl db
  · exact locksOnly_releaseJobRows db _ _ _

theorem locksOnly_releaseJobLocksForStatus (db : Db) (jobId : ℕ) (status : JobStatus) :
    LocksOnly db (releaseJobLocksForStatus db jobId status) := by
  unfold releaseJobLocksForStatus
  split
  · exact locksOnly_releaseJobFileLocks db jobId _
  · exact LocksOnly.refl db

theorem locksOnly_cleanupStaleFileLocks (db : Db) : LocksOnly db (cleanupStaleFileLocks db) := by
  unfold cleanupStaleFileLocks
  dsimp only
  split
  · exact ⟨rfl, rfl, rfl, rfl, rfl, rfl, rfl, rfl⟩
  · exact ⟨rfl, rfl, rfl, rfl, rfl, rfl, rfl, rfl⟩

theorem locksOnly_insertWorkItemFileLock (db : Db) (lock : WorkItemFileLock) :
    LocksOnly db (insertWorkItemFileLock db lock) := by
  unfold insertWorkItemFileLock
  split
  · exact LocksOnly.refl db
  · exact ⟨rfl, rfl, rfl, rfl, rfl, rfl, rfl, rfl⟩

theorem locksOnly_insertJobFileLock (db : Db) (lock : JobFileLock) :
    LocksOnly db (insertJobFileLock db lock) := by
  unfold insertJobFileLock
  split
  · exact LocksOnly.refl db
  · exact ⟨rfl, rfl, rfl, rfl, rfl, rfl, rfl, rfl⟩

theorem locksOnly_insertMissingWiLocks (db : Db) (job : Job) (scope : WriteScope)
    (leaseToken : Option ℕ) : LocksOnly db (insertMissingWiLocks db job scope leaseToken) := by
  unfold insertMissingWiLocks
  split
  · exact LocksOnly.refl db
  · split
    · exact LocksOnly.refl db
    · split
      · exact LocksOnly.refl db
      · exact locksOnly_foldl (fun d _ => locksOnly_insertWorkItemFileLock d _) _ db

theorem locksOnly_insertJobLocks (db : Db) (job : Job) (scope : WriteScope) :
    LocksOnly db (insertJobLocks db job scope) := by
  unfold insertJobLocks
  split
  · exact LocksOnly.refl db
  · exact locksOnly_foldl (fun d _ => locksOnly_insertJobFileLock d _) _ db

theorem locksOnly_insertLeaseLocks (db : Db) (fresh : Job) (scope : WriteScope)
    (leaseToken : ℕ) : LocksOnly db (insertLeaseLocks db fresh scope leaseToken) := by
  unfold insertLeaseLocks
  split_ifs
  · exact locksOnly_insertJobLocks db fresh scope
  · exact (locksOnly_insertMissingWiLocks db fresh scope _).trans
      (locksOnly_insertJobLocks _ fresh scope)
  · exact LocksOnly.refl db

theorem locksOnly_conflictAfterCleanup (db : Db) (conflict : Db → Option WriteLockConflict) :
    LocksOnly db (conflictAfterCleanup db conflict).1 := by
  unfold conflictAfterCleanup
  split
  · exact LocksOnly.refl db
  · dsimp only
    split
    · exact locksOnly_cleanupStaleFileLocks db
    · exact locksOnly_cleanupStaleFileLocks db

/-! ## 8. What an acquisition does -/

/-- A check that is passed is passed in the database it leaves behind. -/
theorem conflictAfterCleanup_spec (db : Db) (conflict : Db → Option WriteLockConflict) :
    ((conflictAfterCleanup db conflict).1 = db ∨
      (conflictAfterCleanup db conflict).1 = cleanupStaleFileLocks db) ∧
    ((conflictAfterCleanup db conflict).2 = false →
      conflict (conflictAfterCleanup db conflict).1 = none) := by
  unfold conflictAfterCleanup
  dsimp only
  split_ifs with hnone hstale
  · exact ⟨Or.inl rfl, fun _ => Option.isNone_iff_eq_none.mp hnone⟩
  · refine ⟨Or.inr rfl, fun h => ?_⟩
    simpa using h
  · exact ⟨Or.inr rfl, fun h => absurd h (by simp)⟩

theorem checkLeaseScope_spec (env : AdmissionEnv) (db : Db) (job : Job) :
    ((checkLeaseScope env db job).1 = db ∨
      (checkLeaseScope env db job).1 = cleanupStaleFileLocks db) ∧
    ((checkLeaseScope env db job).2 = false → jobNeedsWriteLocks job = true →
      hasWriteScope (leaseScope job) = true →
      findWriteLockConflict env (checkLeaseScope env db job).1 job (leaseScope job) true =
        none) := by
  unfold checkLeaseScope
  split_ifs with hneeds
  · obtain ⟨hdb, hconflict⟩ := conflictAfterCleanup_spec db
      (findWriteLockConflict env · job (leaseScope job) true)
    exact ⟨hdb, fun h _ _ => hconflict h⟩
  · refine ⟨Or.inl rfl, fun _ hlocks hscope => ?_⟩
    simp [hlocks, hscope] at hneeds

/-- What a lease that succeeds has passed, in the database after a possible cleanup. -/
structure LeasePasses (env : AdmissionEnv) (db db₁ : Db) (jobId : ℕ) (fresh : Job)
    (transfers : List ReviewedTransfer) : Prop where
  job : db.getJob jobId = some fresh
  queued : fresh.status = .queued
  predecessors : unmetHardDependencyPredecessorJobIdsForJob db fresh = ∅
  cleaned : db₁ = db ∨ db₁ = cleanupStaleFileLocks db
  noConflict : jobNeedsWriteLocks fresh = true → hasWriteScope (leaseScope fresh) = true →
    findWriteLockConflict env db₁ fresh (leaseScope fresh) true = none
  admitted : admitTransfers env db₁ fresh (leaseScope fresh) = .ok transfers

/-- **Everything a lease with locks does.**  Either it answers nothing and at most cleans up
stale rows, or every check passed and the job is leased. -/
theorem acquireLeaseWithWriteLocks_cases (env : AdmissionEnv) (clock : Clock) (db : Db)
    (jobId : ℕ) (ownerId : String) (durationMs : ℤ) :
    (∃ db', acquireLeaseWithWriteLocks env clock db jobId ownerId durationMs = (db', none) ∧
      (db' = db ∨ db' = cleanupStaleFileLocks db)) ∨
    ∃ fresh db₁ transfers, LeasePasses env db db₁ jobId fresh transfers ∧
      acquireLeaseWithWriteLocks env clock db jobId ownerId durationMs =
        leaseWithLocks clock db₁ fresh (leaseScope fresh) transfers ownerId durationMs := by
  unfold acquireLeaseWithWriteLocks
  cases hfresh : db.getJob jobId with
  | none => exact Or.inl ⟨db, rfl, Or.inl rfl⟩
  | some fresh =>
    obtain ⟨hdb, hconflict⟩ := checkLeaseScope_spec env db fresh
    dsimp only
    by_cases hstatus : fresh.status ≠ .queued ∨ isBudgetPaused db fresh.workItemId = true
    · rw [if_pos hstatus]
      exact Or.inl ⟨db, rfl, Or.inl rfl⟩
    rw [if_neg hstatus]
    by_cases hready : fresh.readyAt.any (fun readyAt => clock.now < readyAt) = true ∨
        unmetHardDependencyPredecessorJobIdsForJob db fresh ≠ ∅
    · rw [if_pos hready]
      exact Or.inl ⟨db, rfl, Or.inl rfl⟩
    rw [if_neg hready]
    push Not at hstatus hready
    cases hblocked : (checkLeaseScope env db fresh).2 with
    | true => exact Or.inl ⟨_, rfl, hdb⟩
    | false =>
      rw [if_neg (by simp)]
      cases hpass : admitTransfers env (checkLeaseScope env db fresh).1 fresh
          (leaseScope fresh) with
      | error conflict => exact Or.inl ⟨_, rfl, hdb⟩
      | ok transfers =>
        dsimp only
        split_ifs with hrejected
        · exact Or.inl ⟨db, rfl, Or.inl rfl⟩
        · exact Or.inr ⟨fresh, _, transfers,
            ⟨hfresh, hstatus.1, hready.2, hdb, hconflict hblocked, hpass⟩, rfl⟩

end PosseClient
