/-
# The memo of a ranking

The memo of `rankRunnableJobs` in `unlock-ranking.js`: a graph and the wake generation it was built
at. Beside it, the operations that write the tables of the graph, with the wakes each of them sends.

* `recordFileLaneWait`, `clearFileLaneWaitsForJob`: the recorded waits.
* `QueueWrite`: the operations of the queue; `RankingWorld.write`: what one of them leaves.
* `rankRunnableJobsMemo`: a ranking with a memo.
* `QueueWrite.Unseen`: when a write that sends no wake leaves the waits as they are.

The columns that only the ranking reads are an argument, by the id of the job: no operation here
writes them. So are the texts that are hashed for a lane. What a conflict names comes with the
operation that it refuses, and what a reconciliation leaves with the operation that makes it.
-/
import PosseClient.Queue.UnlockRanking
import PosseClient.Queue.Dependencies
import PosseClient.Queue.WorkItemFrames

namespace PosseClient

open Table

/-! ## 1. Recorded waits -/

/-- A row of `file_lane_waits`, with the columns of its key and its fingerprint. -/
structure LaneWaitRow extends FileLaneWait where
  laneId : String
  holderKey : String
  stateFingerprint : String
  deriving DecidableEq, Repr

/-- The `holder_type` column. -/
inductive LaneHolderType
  | job | workItem | activeWorker
  deriving DecidableEq, Repr

def LaneHolderType.text : LaneHolderType → String
  | .job => "job"
  | .workItem => "work_item"
  | .activeWorker => "active_worker"

def LockKind.text : LockKind → String
  | .file => "file"
  | .root => "root"

/-- The argument of `recordFileLaneWait`; a holder type is absent where it is none of the three. -/
structure LaneWaitDetail where
  waiterJobId : ℕ
  waiterWorkItemId : ℕ
  holderType : Option LaneHolderType
  holderJobId : Option ℕ := none
  holderWorkItemId : Option ℕ := none
  path : String
  lockKind : LockKind := .file
  laneId : Option String := none
  waitState : Option String := none
  deriving DecidableEq, Repr

/-- What `normalizedWaitDescriptor` returns. -/
structure LaneWaitDescriptor where
  laneId : String
  waiterJobId : ℕ
  waiterWorkItemId : ℕ
  holderType : LaneHolderType
  holderKey : String
  holderJobId : Option ℕ
  holderWorkItemId : Option ℕ
  path : String
  lockKind : LockKind
  deriving DecidableEq, Repr

/-- The hash, and the canonical text of a wait with its state. -/
structure LaneTexts where
  sha256Hex : String → String
  stateText : LaneWaitDescriptor → Option String → String

/-- `fileLaneId`. -/
def fileLaneId (texts : LaneTexts) (path : String) (lockKind : LockKind) : Option String :=
  let normalizedPath := normalizeLockPath path
  if normalizedPath = "" then none
  else some ("lane:sha256:" ++ texts.sha256Hex (lockKind.text ++ "\x00" ++ normalizedPath))

/-- `normalizedWaitDescriptor`. -/
def normalizedWaitDescriptor (texts : LaneTexts) (detail : LaneWaitDetail) :
    Option LaneWaitDescriptor :=
  let holderJobId := detail.holderJobId.filter (· ≠ 0)
  let holderWorkItemId := detail.holderWorkItemId.filter (· ≠ 0)
  let normalizedPath := normalizeLockPath detail.path
  if detail.waiterJobId = 0 ∨ detail.waiterWorkItemId = 0 ∨ normalizedPath = "" then none
  else do
    let holderType ← detail.holderType
    let laneId ← (detail.laneId.filter (· ≠ "")).or
      (fileLaneId texts normalizedPath detail.lockKind)
    return {
      laneId := laneId
      waiterJobId := detail.waiterJobId
      waiterWorkItemId := detail.waiterWorkItemId
      holderType := holderType
      holderKey := holderType.text ++ ":" ++
        ((holderJobId.or holderWorkItemId).map toString).getD "unknown"
      holderJobId := holderJobId
      holderWorkItemId := holderWorkItemId
      path := normalizedPath
      lockKind := detail.lockKind }

/-- The row of a descriptor, by its key. -/
def LaneWaitRow.isAt (descriptor : LaneWaitDescriptor) (row : LaneWaitRow) : Bool :=
  row.waiterJobId == descriptor.waiterJobId && row.laneId == descriptor.laneId &&
    row.holderKey == descriptor.holderKey

/-- `waitStateForDetail`, the fingerprint: without a state of its own the stored one stays. -/
def waitStateForDetail (texts : LaneTexts) (waitState : Option String)
    (descriptor : LaneWaitDescriptor) (existing : Option LaneWaitRow) : String :=
  match waitState, existing.filter (·.stateFingerprint ≠ "") with
  | none, some row => row.stateFingerprint
  | _, _ => texts.sha256Hex (texts.stateText descriptor waitState)

/-- The row that is stored. -/
def LaneWaitDescriptor.row (descriptor : LaneWaitDescriptor) (stateFingerprint : String) :
    LaneWaitRow where
  waiterJobId := descriptor.waiterJobId
  holderJobId := descriptor.holderJobId
  holderWorkItemId := descriptor.holderWorkItemId
  path := descriptor.path
  lockKind := descriptor.lockKind
  laneId := descriptor.laneId
  holderKey := descriptor.holderKey
  stateFingerprint := stateFingerprint

/-- The write of `recordFileLaneWait`: a row of the key is replaced, unless it says the same. -/
def storeLaneWait (texts : LaneTexts) (waits : List LaneWaitRow) (waitState : Option String)
    (descriptor : LaneWaitDescriptor) : List LaneWaitRow :=
  let existing := waits.find? (LaneWaitRow.isAt descriptor)
  let row := descriptor.row (waitStateForDetail texts waitState descriptor existing)
  match existing with
  | none => waits ++ [row]
  | some old =>
    if old.stateFingerprint = row.stateFingerprint then waits
    else updateWhere (LaneWaitRow.isAt descriptor) (fun _ => row) waits

/-- `SELECT status FROM jobs WHERE id = ? AND work_item_id = ?` is `queued`. -/
def waiterIsQueued (db : Db) (descriptor : LaneWaitDescriptor) : Bool :=
  (db.getJob descriptor.waiterJobId).any fun job =>
    job.workItemId == some descriptor.waiterWorkItemId && job.status == .queued

/-- `recordFileLaneWait`. -/
def recordFileLaneWait (texts : LaneTexts) (db : Db) (waits : List LaneWaitRow)
    (detail : LaneWaitDetail) : List LaneWaitRow :=
  match normalizedWaitDescriptor texts detail with
  | none => waits
  | some descriptor =>
    if waiterIsQueued db descriptor = false then waits
    else storeLaneWait texts waits detail.waitState descriptor

/-- What `waitDescriptorForConflict` reads of a conflict. -/
structure LaneConflict where
  isWorkItem : Bool
  holderJobId : Option ℕ := none
  holderWorkItemId : Option ℕ := none
  path : String
  lockKind : LockKind := .file
  waitState : Option String := none
  deriving DecidableEq, Repr

/-- `waitDescriptorForConflict`. -/
def waitDescriptorForConflict (texts : LaneTexts) (job : Job) (conflict : LaneConflict) :
    Option LaneWaitDescriptor :=
  normalizedWaitDescriptor texts {
    waiterJobId := job.id
    waiterWorkItemId := job.workItemId.getD 0
    holderType := some (if conflict.isWorkItem then .workItem else .job)
    holderJobId := conflict.holderJobId
    holderWorkItemId := conflict.holderWorkItemId
    path := conflict.path
    lockKind := conflict.lockKind }

/-- A descriptor as the argument of `recordFileLaneWait`. -/
def LaneWaitDescriptor.detail (descriptor : LaneWaitDescriptor) (waitState : Option String) :
    LaneWaitDetail where
  waiterJobId := descriptor.waiterJobId
  waiterWorkItemId := descriptor.waiterWorkItemId
  holderType := some descriptor.holderType
  holderJobId := descriptor.holderJobId
  holderWorkItemId := descriptor.holderWorkItemId
  path := descriptor.path
  lockKind := descriptor.lockKind
  laneId := some descriptor.laneId
  waitState := waitState

/-- The detail that `recordFileLaneConflict` records for a job, if it records one. -/
def conflictDetail (texts : LaneTexts) (db : Db) (jobId : ℕ) (conflict : Option LaneConflict) :
    Option LaneWaitDetail := do
  let job ← db.getJob jobId
  let conflict ← conflict
  let descriptor ← waitDescriptorForConflict texts job conflict
  return descriptor.detail conflict.waitState

/-- `recordFileLaneConflict`. -/
def recordFileLaneConflict (texts : LaneTexts) (db : Db) (waits : List LaneWaitRow) (jobId : ℕ)
    (conflict : Option LaneConflict) : List LaneWaitRow :=
  match conflictDetail texts db jobId conflict with
  | none => waits
  | some detail => recordFileLaneWait texts db waits detail

/-- `clearFileLaneWaitsForJob`. -/
def clearFileLaneWaitsForJob (waits : List LaneWaitRow) (jobId : ℕ) : List LaneWaitRow :=
  deleteWhere (fun row => row.waiterJobId == jobId) waits

/-! ## 2. The operations -/

/-- The functions that release locks. -/
inductive LockRelease
  | job (jobId : ℕ) (reason : ReleaseReason)
  | workItem (workItemId : ℕ) (reason : ReleaseReason)
  | sourceJob (jobId : ℕ) (reason : ReleaseReason)
  | workItemPath (workItemId : ℕ) (path : String) (lockKind : LockKind) (reason : ReleaseReason)
  | stale
  deriving DecidableEq, Repr

/-- The database after a release. -/
def LockRelease.exec (db : Db) : LockRelease → Db
  | .job jobId reason => releaseJobFileLocks db jobId reason
  | .workItem workItemId reason => releaseWorkItemFileLocks db workItemId reason
  | .sourceJob jobId reason => releaseWorkItemFileLocksForSourceJob db jobId reason
  | .workItemPath workItemId path lockKind reason =>
    (releaseWorkItemFileLockForPath db workItemId path lockKind reason).1
  | .stale => cleanupStaleFileLocks db

/-- The wakes of a dependency writer: an insert that changed a row, a removal of a row, a rewire. -/
def DependencyOp.wakes (db : Db) : DependencyOp → ℕ
  | .add j d kind =>
    match addDependency db j d kind with
    | .ok (db', true) => if db'.dependencies = db.dependencies then 0 else 1
    | _ => 0
  | .remove j d => if (removeDependency db j d).2 then 1 else 0
  | .rewire j o d kind =>
    match rewireDependency db j o d kind with
    | .ok (_, true) => 1
    | _ => 0
  | .rewireChain j o ids kind =>
    match rewireDependencyChain db j o ids kind with
    | .ok (_, details) => if details.rewired then 1 else 0
    | .error _ => 0

/-- An operation of the queue.  An acquisition has the conflict that refuses it, if one does. -/
inductive QueueWrite
  | dependency (op : DependencyOp)
  | acquireLease (clock : Clock) (jobId : ℕ) (ownerId : String) (durationMs : ℤ)
  | acquireLeaseWithWriteLocks (env : AdmissionEnv) (clock : Clock) (jobId : ℕ)
      (ownerId : String) (durationMs : ℤ) (conflict : Option LaneConflict)
  | releaseLease (clock : Clock) (jobId leaseToken : ℕ) (finalStatus : JobStatus)
      (readyAt : Option ℤ)
  | updateJobStatus (clock : Clock) (jobId : ℕ) (status : JobStatus) (options : StatusOptions)
  | createJob (clock : Clock) (spec : JobSpec) (contract : Option GateContract)
  | releaseLocks (op : LockRelease)
  | verifyOrAcquireJobWriteLockForPath (env : AdmissionEnv) (jobId : ℕ) (filePath : String)
      (conflict : Option LaneConflict)
  | acquireAdditionalJobWritePaths (env : AdmissionEnv) (jobId : ℕ) (paths : List String)
      (conflict : Option LaneConflict)
  | recordFileLaneWait (detail : LaneWaitDetail)
  | clearFileLaneWaitsForJob (jobId : ℕ)

/-- The database after an operation. -/
def QueueWrite.exec (db : Db) : QueueWrite → Db
  | .dependency op => op.exec db
  | .acquireLease clock jobId ownerId durationMs =>
    (PosseClient.acquireLease clock db jobId ownerId durationMs).1
  | .acquireLeaseWithWriteLocks env clock jobId ownerId durationMs _ =>
    (PosseClient.acquireLeaseWithWriteLocks env clock db jobId ownerId durationMs).1
  | .releaseLease clock jobId leaseToken finalStatus readyAt =>
    (PosseClient.releaseLease clock db jobId leaseToken finalStatus readyAt).1
  | .updateJobStatus clock jobId status options =>
    (PosseClient.updateJobStatus clock db jobId status options).1
  | .createJob clock spec contract => (PosseClient.createJob clock db spec contract).1
  | .releaseLocks op => op.exec db
  | .verifyOrAcquireJobWriteLockForPath env jobId filePath _ =>
    (PosseClient.verifyOrAcquireJobWriteLockForPath env db jobId filePath).1
  | .acquireAdditionalJobWritePaths env jobId paths _ =>
    (PosseClient.acquireAdditionalJobWritePaths env db jobId paths).1
  | .recordFileLaneWait _ | .clearFileLaneWaitsForJob _ => db

/-- The wakes that an operation sends. -/
def QueueWrite.wakes (db : Db) (op : QueueWrite) : ℕ :=
  ((op.exec db).wakes.length - db.wakes.length) +
    match op with
    | .dependency op => op.wakes db
    | _ => 0

/-- The job that an operation leases. -/
def QueueWrite.leases (db : Db) : QueueWrite → Option ℕ
  | .acquireLease clock jobId ownerId durationMs =>
    (PosseClient.acquireLease clock db jobId ownerId durationMs).2.map fun _ => jobId
  | .acquireLeaseWithWriteLocks env clock jobId ownerId durationMs _ =>
    (PosseClient.acquireLeaseWithWriteLocks env clock db jobId ownerId durationMs).2.map
      fun _ => jobId
  | _ => none

/-- The job whose recorded waits an operation clears: a lease with locks clears those of its job. -/
def QueueWrite.clears (db : Db) : QueueWrite → Option ℕ
  | .acquireLeaseWithWriteLocks env clock jobId ownerId durationMs _ =>
    (PosseClient.acquireLeaseWithWriteLocks env clock db jobId ownerId durationMs).2.map
      fun _ => jobId
  | .clearFileLaneWaitsForJob jobId => some jobId
  | _ => none

/-- The wait that an operation records: a refused acquisition records its conflict. -/
def QueueWrite.records (texts : LaneTexts) (db : Db) : QueueWrite → Option LaneWaitDetail
  | .acquireLeaseWithWriteLocks env clock jobId ownerId durationMs conflict =>
    if (PosseClient.acquireLeaseWithWriteLocks env clock db jobId ownerId durationMs).2.isSome then
      none
    else conflictDetail texts db jobId conflict
  | .verifyOrAcquireJobWriteLockForPath env jobId filePath conflict =>
    if (PosseClient.verifyOrAcquireJobWriteLockForPath env db jobId filePath).2 then none
    else conflictDetail texts db jobId conflict
  | .acquireAdditionalJobWritePaths env jobId paths conflict =>
    if (PosseClient.acquireAdditionalJobWritePaths env db jobId paths).2 then none
    else conflictDetail texts db jobId conflict
  | .recordFileLaneWait detail => some detail
  | _ => none

/-- The recorded waits after an operation that makes no reconciliation. -/
def QueueWrite.laneWaits (texts : LaneTexts) (db : Db) (waits : List LaneWaitRow)
    (op : QueueWrite) : List LaneWaitRow :=
  match op.clears db, op.records texts db with
  | some jobId, _ => PosseClient.clearFileLaneWaitsForJob waits jobId
  | none, some detail => PosseClient.recordFileLaneWait texts db waits detail
  | none, none => waits

/-! ## 3. The id of a job stays a key -/

/-- A dependency writer writes one table. -/
theorem upsertDependency_frame {db db' : Db} {jobId dependsOnId : ℕ} {kind : DependencyKind}
    (h : upsertDependency db jobId dependsOnId kind = .ok db') :
    db' = { db with dependencies := db'.dependencies } := by
  unfold upsertDependency at h
  split at h
  · cases h
    rfl
  split at h
  · cases h
    rfl
  · cases h

/-- The writes of a fan, one after the other. -/
theorem foldlM_upsertDependency_frame {jobId : ℕ} {kind : DependencyKind} (ids : List ℕ)
    {db db' : Db} (h : ids.foldlM (fun d id => upsertDependency d jobId id kind) db = .ok db') :
    db' = { db with dependencies := db'.dependencies } := by
  induction ids generalizing db with
  | nil =>
    cases h
    rfl
  | cons id ids ih =>
    rw [List.foldlM_cons] at h
    cases hup : upsertDependency db jobId id kind with
    | error e =>
      rw [hup] at h
      cases h
    | ok mid =>
      rw [hup] at h
      have hrest := ih h
      rw [upsertDependency_frame hup] at hrest
      exact hrest

theorem addDependency_frame {db db' : Db} {jobId dependsOnId : ℕ} {kind : DependencyKind} {b : Bool}
    (h : addDependency db jobId dependsOnId kind = .ok (db', b)) :
    db' = { db with dependencies := db'.dependencies } := by
  unfold addDependency at h
  split at h
  · cases h
    rfl
  split at h
  · cases h
    rfl
  cases hup : upsertDependency db jobId dependsOnId kind with
  | error e =>
    rw [hup] at h
    cases h
  | ok mid =>
    rw [hup] at h
    cases h
    exact upsertDependency_frame hup

theorem rewireDependency_frame {db db' : Db} {jobId oldDependsOn newDependsOn : ℕ}
    {kind : DependencyKind} {b : Bool}
    (h : rewireDependency db jobId oldDependsOn newDependsOn kind = .ok (db', b)) :
    db' = { db with dependencies := db'.dependencies } := by
  unfold rewireDependency at h
  split at h
  · cases h
    rfl
  split at h
  · cases h
    rfl
  cases hup : upsertDependency (deleteDependency db jobId oldDependsOn) jobId newDependsOn kind with
  | error e =>
    rw [hup] at h
    cases h
  | ok mid =>
    rw [hup] at h
    cases h
    have hkept := upsertDependency_frame hup
    exact hkept

theorem rewireDependencyChain_frame {db db' : Db} {jobId oldDependsOn : ℕ} {ids : List (Option ℤ)}
    {kind : DependencyKind} {details : RewireDetails}
    (h : rewireDependencyChain db jobId oldDependsOn ids kind = .ok (db', details)) :
    db' = { db with dependencies := db'.dependencies } := by
  unfold rewireDependencyChain at h
  dsimp only at h
  split at h
  · cases h
    rfl
  generalize hids : List.filter _ (List.filter _ _) = accepted at h
  cases hup : accepted.foldlM (fun d id => upsertDependency d jobId id kind)
      (deleteDependency db jobId oldDependsOn) with
  | error e =>
    rw [hup] at h
    cases h
  | ok mid =>
    rw [hup] at h
    cases h
    have hkept := foldlM_upsertDependency_frame accepted hup
    exact hkept

/-- A transaction that writes one table or none. -/
theorem commit_frame {α : Type} {db : Db} {result : Except DbError (Db × α)}
    (h : ∀ db' a, result = .ok (db', a) → db' = { db with dependencies := db'.dependencies }) :
    db.commit result = { db with dependencies := (db.commit result).dependencies } := by
  cases result with
  | error e => rfl
  | ok pair => exact h pair.1 pair.2 rfl

theorem DependencyOp.exec_frame (db : Db) (op : DependencyOp) :
    op.exec db = { db with dependencies := (op.exec db).dependencies } := by
  cases op with
  | add j d kind => exact commit_frame fun _ _ h => addDependency_frame h
  | remove j d => rfl
  | rewire j o d kind => exact commit_frame fun _ _ h => rewireDependency_frame h
  | rewireChain j o ids kind => exact commit_frame fun _ _ h => rewireDependencyChain_frame h

theorem locksOnly_lockRelease (db : Db) (op : LockRelease) : LocksOnly db (op.exec db) := by
  cases op with
  | job jobId reason => exact locksOnly_releaseJobFileLocks db jobId reason
  | workItem workItemId reason => exact locksOnly_releaseWorkItemFileLocks db workItemId reason
  | sourceJob jobId reason => exact locksOnly_releaseWorkItemRows db _ reason _
  | workItemPath workItemId path lockKind reason =>
    unfold LockRelease.exec releaseWorkItemFileLockForPath
    dsimp only
    split
    · exact LocksOnly.refl db
    · exact locksOnly_releaseWorkItemRows db _ reason _
  | stale => exact locksOnly_cleanupStaleFileLocks db

theorem locksOnly_verifyOrAcquire (env : AdmissionEnv) (db : Db) (jobId : ℕ) (filePath : String) :
    LocksOnly db (verifyOrAcquireJobWriteLockForPath env db jobId filePath).1 := by
  unfold verifyOrAcquireJobWriteLockForPath
  dsimp only
  split
  · exact LocksOnly.refl db
  split
  · exact LocksOnly.refl db
  have hchecked := locksOnly_conflictAfterCleanup db
  split
  · exact hchecked _
  · exact (hchecked _).trans ((locksOnly_insertMissingWiLocks _ _ _ _).trans
      (locksOnly_insertJobLocks _ _ _))

theorem locksOnly_acquireAdditional (env : AdmissionEnv) (db : Db) (jobId : ℕ)
    (paths : List String) :
    LocksOnly db (acquireAdditionalJobWritePaths env db jobId paths).1 := by
  unfold acquireAdditionalJobWritePaths
  dsimp only
  split
  · exact LocksOnly.refl db
  split
  · exact LocksOnly.refl db
  split
  · exact LocksOnly.refl db
  split
  · exact LocksOnly.refl db
  split
  · exact LocksOnly.refl db
  split
  · exact LocksOnly.refl db
  · exact (locksOnly_insertMissingWiLocks _ _ _ _).trans (locksOnly_insertJobLocks _ _ _)

/-- **The id of a job is a key**, and stays one. -/
theorem QueueWrite.jobs_key (db : Db) (op : QueueWrite) (h : (db.jobs.map Job.id).Nodup) :
    ((op.exec db).jobs.map Job.id).Nodup := by
  cases op with
  | dependency op =>
    rw [exec, op.exec_frame db]
    exact h
  | acquireLease clock jobId ownerId durationMs =>
    exact (fenced_acquireLease clock db jobId ownerId durationMs).ids ▸ h
  | acquireLeaseWithWriteLocks env clock jobId ownerId durationMs =>
    exact (fenced_acquireLeaseWithWriteLocks env clock db jobId ownerId durationMs).ids ▸ h
  | releaseLease clock jobId leaseToken finalStatus readyAt =>
    exact (fenced_releaseLease clock db jobId leaseToken finalStatus readyAt).ids ▸ h
  | updateJobStatus clock jobId status options =>
    exact (fenced_updateJobStatus clock db jobId status options).ids ▸ h
  | createJob clock spec contract => exact (keeps_createJob clock db spec contract).jobIds h
  | releaseLocks op => exact (locksOnly_lockRelease db op).jobs ▸ h
  | verifyOrAcquireJobWriteLockForPath env jobId filePath =>
    exact (locksOnly_verifyOrAcquire env db jobId filePath).jobs ▸ h
  | acquireAdditionalJobWritePaths env jobId paths =>
    exact (locksOnly_acquireAdditional env db jobId paths).jobs ▸ h
  | recordFileLaneWait detail => exact h
  | clearFileLaneWaitsForJob jobId => exact h

/-! ## 4. The database of a ranking -/

/-- The database, the recorded waits and the wake generation. -/
structure RankingWorld where
  db : Db
  laneWaits : List LaneWaitRow := []
  generation : ℕ := 0
  jobs_key : (db.jobs.map Job.id).Nodup

/-- An operation; `reconciled` is what it and its reconciliations leave of the recorded waits, where
it sends a wake. -/
def RankingWorld.write (texts : LaneTexts) (w : RankingWorld) (op : QueueWrite)
    (reconciled : List LaneWaitRow) : RankingWorld where
  db := op.exec w.db
  laneWaits := if op.wakes w.db = 0 then op.laneWaits texts w.db w.laneWaits else reconciled
  generation := w.generation + op.wakes w.db
  jobs_key := op.jobs_key w.db w.jobs_key

/-- The columns of a job that only the ranking reads. -/
structure RankColumns (φ : Type*) where
  priority : JobPriority := .normal
  createdAt : String := ""
  createdMs : Option ℤ := none
  payload : UnlockPayload φ := {}

section Memo

variable {φ : Type*} (columns : ℕ → RankColumns φ) (normalizeRepoPath : φ → String)

/-- A row of `jobs`, as the ranking reads it. -/
def Job.unlockJob (job : Job) : UnlockJob φ where
  id := job.id
  workItemId := job.workItemId
  parentJobId := job.parentJobId
  jobType := job.jobType
  status := job.status
  priority := (columns job.id).priority
  createdAt := (columns job.id).createdAt
  createdMs := (columns job.id).createdMs
  payload := (columns job.id).payload

theorem map_unlockJob_id (jobs : List Job) :
    (jobs.map (Job.unlockJob columns)).map UnlockJob.id = jobs.map Job.id := by
  rw [List.map_map]
  rfl

/-- The tables of the graph. -/
def RankingWorld.tables (w : RankingWorld) : UnlockTables φ where
  jobs := w.db.jobs.map (Job.unlockJob columns)
  dependencies := w.db.dependencies
  workItemFileLocks := w.db.workItemFileLocks
  jobFileLocks := w.db.jobFileLocks
  fileLaneWaits := w.laneWaits.map LaneWaitRow.toFileLaneWait
  jobs_key := map_unlockJob_id columns w.db.jobs ▸ w.jobs_key

/-! ## 5. The memo -/

/-- A memo with a graph. -/
structure RankingMemo where
  generation : ℕ
  graph : UnlockGraph

/-- The memo of a call: the one it is given, where the generation has not moved. -/
def memoAt (w : RankingWorld) (memo : Option RankingMemo) : RankingMemo :=
  match memo with
  | none => ⟨w.generation, buildUnlockGraph normalizeRepoPath (w.tables columns)⟩
  | some memo =>
    if memo.generation ≠ w.generation then
      ⟨w.generation, buildUnlockGraph normalizeRepoPath (w.tables columns)⟩
    else memo

variable {κ : Type*} [LinearOrder κ] (collationKey : String → κ)

/-- `rankRunnableJobs` with a memo: the memo after the call, and the ranking. -/
def rankRunnableJobsMemo (w : RankingWorld) (memo : Option RankingMemo) (nowMs : ℤ)
    (candidates : List (UnlockJob φ)) : RankingMemo × List (RankedJob φ) :=
  let memo := memoAt columns normalizeRepoPath w memo
  (memo, rankCandidates collationKey memo.graph nowMs candidates)

/-! ## 6. Writes that are not seen -/

/-- What a lock row holds. -/
def WorkItemFileLock.hold (lock : WorkItemFileLock) : FileHold :=
  ⟨some lock.workItemId, ⟨lock.path, lock.lockKind⟩, none⟩

def JobFileLock.hold (lock : JobFileLock) : FileHold :=
  ⟨some lock.workItemId, ⟨lock.path, lock.lockKind⟩, some lock.jobId⟩

/-- The holds of the lock rows that a write has added. -/
def addedHolds (db db' : Db) : List FileHold :=
  (db'.workItemFileLocks.drop db.workItemFileLocks.length).map WorkItemFileLock.hold ++
    (db'.jobFileLocks.drop db.jobFileLocks.length).map JobFileLock.hold

/-- The calls have what a job waits for at a hold. -/
def HasWaits (tables : UnlockTables φ) (calls : List EdgeCall) (waiterId : ℕ) (hold : FileHold) :
    Prop :=
  ∀ producer, KeepsHold normalizeRepoPath tables hold producer →
    producer = waiterId ∨ ⟨producer, waiterId, ⟨.file, some hold.row.path⟩⟩ ∈ calls

/-- The calls for the locks of other work items, those of `work_item_file_locks`. -/
def workItemLockCalls (tables : UnlockTables φ) (waiter : UnlockJob φ) : List EdgeCall :=
  (tables.workItemFileLocks.filter (·.releaseReason.isNone)).flatMap fun lock =>
    if lock.hold.workItemId ≠ waiter.workItemId ∧
        touchesRow (scopeRows normalizeRepoPath waiter) lock.hold.row then
      fileOwnerCalls normalizeRepoPath tables waiter lock.hold
    else []

/-- The row that a detail stores, where it stores one. -/
def storedWait (texts : LaneTexts) (db : Db) (detail : LaneWaitDetail) :
    Option LaneWaitDescriptor :=
  (normalizedWaitDescriptor texts detail).filter (waiterIsQueued db)

/-- **A write leaves the waits as they are**, up to waits that the graph has for another reason.
The job it leases waits for no file; a lock it adds is on no path that a queued job of another work
item plans to write; a wait it clears is one for a lock; a wait it records is in the graph. -/
structure QueueWrite.Unseen (texts : LaneTexts) (w : RankingWorld) (op : QueueWrite) : Prop where
  leased : ∀ jobId, op.leases w.db = some jobId → ∀ producer,
    FileWait normalizeRepoPath (w.tables columns) jobId producer → producer = jobId
  locked : ∀ hold ∈ addedHolds w.db (op.exec w.db), ∀ waiter ∈ (w.tables columns).queued,
    hold.workItemId ≠ waiter.workItemId →
    touchesRow (scopeRows normalizeRepoPath waiter) hold.row = true →
    HasWaits normalizeRepoPath (w.tables columns)
      (workItemLockCalls normalizeRepoPath (w.tables columns) waiter) waiter.id hold
  cleared : op.leases w.db = none → ∀ jobId, op.clears w.db = some jobId →
    ∀ row ∈ w.laneWaits, row.waiterJobId = jobId →
    ∀ waiter ∈ (w.tables columns).queued, waiter.id = jobId →
    HasWaits normalizeRepoPath (w.tables columns)
      (lockCalls normalizeRepoPath (w.tables columns)) jobId row.hold
  recorded : ∀ detail, op.records texts w.db = some detail →
    ∀ descriptor, storedWait texts w.db detail = some descriptor →
    (∀ row ∈ w.laneWaits, row.isAt descriptor = true →
      row.toFileLaneWait = (descriptor.row "").toFileLaneWait) ∧
    ((∀ row ∈ w.laneWaits, row.isAt descriptor = false) →
      HasWaits normalizeRepoPath (w.tables columns)
        (lockCalls normalizeRepoPath (w.tables columns) ++
          waitCalls normalizeRepoPath (w.tables columns))
        descriptor.waiterJobId (descriptor.row "").hold)

end Memo

/-! ## 7. Runs -/

/-- A step: a write, or a ranking of candidates. -/
inductive RankingOp (φ : Type*)
  | write (op : QueueWrite) (reconciled : List LaneWaitRow)
  | rank (nowMs : ℤ) (candidates : List (UnlockJob φ))

/-- The database and the memo that the calls share. -/
structure RankingRun where
  world : RankingWorld
  memo : Option RankingMemo := none

section Runs

variable {φ : Type*} (texts : LaneTexts) (columns : ℕ → RankColumns φ)
  (normalizeRepoPath : φ → String) {κ : Type*} [LinearOrder κ] (collationKey : String → κ)

def rankingStep (s : RankingRun) : RankingOp φ → RankingRun
  | .write op reconciled => { s with world := s.world.write texts op reconciled }
  | .rank nowMs candidates =>
    { s with
      memo := some (rankRunnableJobsMemo columns normalizeRepoPath collationKey s.world s.memo nowMs
        candidates).1 }

/-- **A write sends a wake, or it is not seen.** -/
def RankingOp.Covered (s : RankingRun) : RankingOp φ → Prop
  | .write op _ => op.wakes s.world.db ≠ 0 ∨ op.Unseen columns normalizeRepoPath texts s.world
  | .rank _ _ => True

end Runs

end PosseClient
