/-
# Work-item status, merge state and the claim of an automatic merge

The work-item functions of `queue-store.js`.  A work item's status is recomputed from its jobs
(`refreshWorkItemStatus`), written through one guarded setter (`updateWorkItemStatus`) and
rewritten by a few functions of their own; its merge state moves beside it.  An automatic merge
claims a completed work item (`authorizeWorkItemAutoMerge`) before Git publishes it.

* Each function is one transaction.  The jobs a transaction settles, cancels or opens on the way
  are written by `forceUpdateJobStatus` and `createJob`, in the source's order.
* Which disposition gates a transition opens, what a review settles beyond the columns modelled
  here, and the durable merge events are read from other modules: they are the `WorkItemEnv`.
-/
import PosseClient.Queue.HumanGates

namespace PosseClient

/-! ## 1. Jobs created and forced -/

/-- The arguments of `createJob`. -/
structure JobSpec where
  workItemId : Option ℕ
  jobType : JobType
  parentJobId : Option ℕ := none
  payload : Payload := {}
  readyAt : Option ℤ := none
  deriving DecidableEq, Repr

/-- The next value of the `AUTOINCREMENT` key of `jobs`: no row or gate names it yet. -/
def nextJobId (db : Db) : ℕ :=
  (db.jobs.map Job.id ++ db.humanGates.map HumanGate.gateJobId).foldr max 0 + 1

/-- `findActiveHumanGateForPayload`. -/
def findActiveHumanGateForPayload (db : Db) (contract : GateContract) (workItemId : Option ℕ) :
    Option HumanGate :=
  let live := fun gate : HumanGate => gate.isActive && hasLiveJob db gate.gateJobId
  match contract.originalJobId with
  | some original => latestGeneration (db.humanGates.filter
      (fun gate => gate.asks (some original) contract.gateKind && live gate))
  | none =>
    match workItemId.filter (fun id => 0 < id && contract.gateKind ∈ workItemSingletonGateKinds) with
    | none => none
    | some id => latestGeneration (db.humanGates.filter (fun gate =>
        gate.asks none contract.gateKind && gateWorkItem db gate == some id && live gate))

/-- The row of a new job. -/
def newJob (clock : Clock) (db : Db) (spec : JobSpec) : Job :=
  { id := nextJobId db
    workItemId := spec.workItemId
    jobType := spec.jobType
    status := .queued
    parentJobId := spec.parentJobId
    readyAt := spec.readyAt.or (some clock.now)
    payload := spec.payload }

/-- `INSERT INTO jobs`. -/
def insertJob (clock : Clock) (db : Db) (spec : JobSpec) : Db :=
  { db with jobs := db.jobs ++ [newJob clock db spec] }

/-- The wake of a created job. -/
def jobCreatedWake (jobId : ℕ) (spec : JobSpec) : Wake :=
  { reason := .jobCreated, jobId := some jobId, workItemId := spec.workItemId }

/-- `createJob` of a `human_input` job: an active gate of the same question answers instead, and
so does one that the registration finds. -/
def createGateJob (clock : Clock) (db : Db) (spec : JobSpec) (contract : GateContract) :
    Db × Option ℕ :=
  match findActiveHumanGateForPayload db contract spec.workItemId with
  | some gate => (db, some gate.gateJobId)
  | none =>
    let jobId := nextJobId db
    let registered := registerHumanGateIn (insertJob clock db spec) jobId (some contract)
    match registered.2 with
    | none => (db, none)
    | some gate =>
      if gate.gateJobId = jobId then (registered.1.notify (jobCreatedWake jobId spec), some jobId)
      else ({ registered.1 with
          jobs := Table.deleteWhere (fun job => job.id == jobId) registered.1.jobs },
        some gate.gateJobId)

/-- `createJob`; the answer is the id of the job, and none where it has thrown: a foreign key,
or a payload without a contract. -/
def createJob (clock : Clock) (db : Db) (spec : JobSpec) (contract : Option GateContract) :
    Db × Option ℕ :=
  if spec.workItemId.any (fun id => (db.getWorkItem id).isNone) ∨
      spec.parentJobId.any (fun id => (db.getJob id).isNone) then (db, none)
  else if spec.jobType = .humanInput then
    match contract with
    | none => (db, none)
    | some contract => createGateJob clock db spec contract
  else ((insertJob clock db spec).notify (jobCreatedWake (nextJobId db) spec),
    some (nextJobId db))

/-- `forceUpdateJobStatus`. -/
def forceUpdateJobStatus (clock : Clock) (db : Db) (jobId : ℕ) (status : JobStatus)
    (expectedStatuses : List JobStatus) : Db × Bool :=
  updateJobStatus clock db jobId status { expectedStatuses := expectedStatuses, force := true }

/-- `forceUpdateJobStatus(job.id, status, { expectedStatuses: [job.status] })` for each job. -/
def forceAll (clock : Clock) (status : JobStatus) (jobs : List Job) (db : Db) : Db :=
  jobs.foldl (fun d job => (forceUpdateJobStatus clock d job.id status [job.status]).1) db

/-- A gate to open: its job, and the contract of its payload. -/
structure GateSpec where
  job : JobSpec
  contract : Option GateContract
  deriving DecidableEq, Repr

/-- A gate that is answered out of band: its job is created and parked. -/
def openParkedGate (clock : Clock) (db : Db) (spec : GateSpec) : Db × Option ℕ :=
  let created := createJob clock db spec.job spec.contract
  match created.2 with
  | none => created
  | some jobId =>
    ((forceUpdateJobStatus clock created.1 jobId .waitingOnHuman [.queued]).1, some jobId)

/-- `listJobsByWorkItem`. -/
def listJobsByWorkItem (db : Db) (workItemId : ℕ) : List Job :=
  db.jobs.filter (fun job => job.workItemId == some workItemId)

/-! ## 2. What a work-item transaction learns from elsewhere -/

/-- What a transition does about a gate or a held task: it cancels its job, or opens a gate. -/
inductive GateEffect
  | retire (jobId : ℕ)
  | openGate (spec : GateSpec)
  deriving DecidableEq, Repr

/-- One such effect. -/
def applyGateEffect (clock : Clock) (db : Db) : GateEffect → Db
  | .retire jobId =>
    match db.getJob jobId with
    | none => db
    | some job => (forceUpdateJobStatus clock db jobId .canceled [job.status]).1
  | .openGate spec => (openParkedGate clock db spec).1

/-- The outcome of the merge verification review. -/
inductive VerificationReview
  | notRequired
  | holds
  | opens (spec : GateSpec)
  deriving DecidableEq, Repr

/-- The durable events, the job and work-item metadata that are not columns of the model, and
the decisions of other modules. -/
structure WorkItemEnv where
  mergedEvent : ℕ → Bool := fun _ => false
  isActiveIterative : WorkItem → Bool := fun _ => false
  missingExecution : WorkItem → List Job → Bool := fun _ _ => false
  isShadowFanout : Job → Bool := fun _ => false
  hasHoldRecord : Job → Bool := fun _ => false
  isReleasedHold : Job → Bool := fun _ => false
  hasSucceededRecovery : Db → ℕ → Bool := fun _ _ => false
  needsReview : Job → Bool := fun _ => false
  reviewRecorded : Job → Bool := fun _ => false
  isMergeFailureGate : Job → Bool := fun _ => false
  rejectionSpent : Job → Bool := fun _ => false
  dispositionEffects : Db → ℕ → WorkItemStatus → List GateEffect := fun _ _ _ => []
  upstreamGates : Db → ℕ → List ℕ := fun _ _ => []
  postMergeEffects : Db → List Job → List GateEffect := fun _ _ => []
  pendingUpstream : Db → WorkItem → Bool := fun _ _ => false
  verificationReview : Db → WorkItem → VerificationReview := fun _ _ => .notRequired
  deliveredBranchWork : Db → ℕ → Bool := fun _ _ => false
  retryJobs : Db → ℕ → List ℕ := fun _ _ => []
  heldDbTasks : Db → ℕ → List Job := fun _ _ => []

/-- `effectiveMergedEvidence`. -/
def effectiveMergedEvidence (env : WorkItemEnv) (wi : WorkItem) : Bool :=
  wi.mergeState == some .merged || env.mergedEvent wi.id

/-- `isPushOfferJob`. -/
def isPushOfferJob (job : Job) : Bool :=
  job.jobType == .humanInput && job.payload.subtype == some "push_offer"

/-- A gate job of one of the review types. -/
def Job.reviews (job : Job) (reviewTypes : List String) : Bool :=
  job.jobType == .humanInput && job.payload.reviewType.any (· ∈ reviewTypes)

/-- `isPostCompletionGateJob`. -/
def isPostCompletionGateJob (job : Job) : Bool :=
  isPushOfferJob job || job.reviews ["merge_verification_review", "merge_failure_recovery"]

/-- `isWorkItemDispositionGateJob`. -/
def isWorkItemDispositionGateJob (job : Job) : Bool :=
  job.reviews ["work_item_failure_disposition", "cross_wi_upstream_disposition"]

/-- `isPostMergeDbGateJob`. -/
def isPostMergeDbGateJob (job : Job) : Bool := job.reviews ["post_merge_db_task"]

/-- `isDbTaskJob`. -/
def isDbTaskJob (job : Job) : Bool := job.jobType == .dev && job.payload.taskMode == some "db"

/-- `isPostMergeHeldDbJob`. -/
def isPostMergeHeldDbJob (env : WorkItemEnv) (job : Job) : Bool :=
  job.status == .waitingOnHuman && isDbTaskJob job && env.hasHoldRecord job &&
    !env.isReleasedHold job

/-- `isPostMergeDbTaskJob`. -/
def isPostMergeDbTaskJob (env : WorkItemEnv) (job : Job) : Bool :=
  isPostMergeDbGateJob job || (isDbTaskJob job && env.hasHoldRecord job)

/-- `NON_COMPLETION_BLOCKING_JOB_TYPES`. -/
def nonCompletionBlockingJobTypes : List JobType := [.atlasWarm, .waitingLanePrepare]

/-- `PIPELINE_BOOTSTRAP_JOB_TYPES`. -/
def pipelineBootstrapJobTypes : List JobType := [.preflight, .research, .plan]

/-- The jobs a work item's status is computed from. -/
def statusJobs (env : WorkItemEnv) (db : Db) (workItemId : ℕ) : List Job :=
  (listJobsByWorkItem db workItemId).filter (fun job => !env.isShadowFanout job &&
    !isPostCompletionGateJob job && !isPostMergeHeldDbJob env job &&
    !isWorkItemDispositionGateJob job)

/-- `completionBlockersForWorkItem`. -/
def completionBlockersForWorkItem (env : WorkItemEnv) (db : Db) (workItemId : ℕ) : List Job :=
  (statusJobs env db workItemId).filter (fun job =>
    job.jobType ∉ nonCompletionBlockingJobTypes &&
      job.status ∉ [JobStatus.succeeded, .canceled] &&
      !(decide (job.status ∈ failedJobStatuses) && env.hasSucceededRecovery db job.id))

/-! ## 3. Reviews that a completion or a merge settles -/

/-- `reviewGateOriginalJobId`. -/
def reviewGateOriginalJobId (job : Job) : Option ℕ :=
  if job.jobType = .humanInput ∧ isPushOfferJob job = false ∧
      job.payload.reviewType.any (fun reviewType => trim reviewType != "") then
    job.payload.originalJobId.filter (fun id => 0 < id)
  else none

/-- `reviewGateNeedsRetirement`. -/
def reviewGateNeedsRetirement (job : Job) : Bool :=
  job.status ∉ [JobStatus.succeeded, .canceled]

/-- `REVIEW_SETTLEMENT_ORIGINAL_STATUSES`. -/
def reviewSettlementOriginalStatuses : List JobStatus :=
  [.waitingOnHuman, .waitingOnReview, .blocked, .awaitingAssessment]

/-- `workItemApprovalGateOriginalJobId`. -/
def workItemApprovalGateOriginalJobId (job : Job) : Option ℕ :=
  if job.jobType = .humanInput then
    (job.payload.originalJobId.or job.parentJobId).filter (fun id => 0 < id)
  else none

local instance lawfulBEq_subtype : LawfulBEq (Option String) := inferInstance

/-- `canRetireHumanGateForWorkItemApproval`. -/
def canRetireHumanGateForWorkItemApproval (job : Job) : Bool :=
  job.jobType == .humanInput && !isPushOfferJob job &&
    job.payload.subtype ∉ [some "plan_approval", some "one_shot_file_scope"] &&
    job.payload.reviewType != some "one_shot_file_scope" && reviewGateNeedsRetirement job

/-- A plan of `settleWorkItemReviewPlan`. -/
structure ReviewPlan where
  originals : List Job
  gates : List Job

/-- `pendingWorkItemReviewSettlement`. -/
def pendingWorkItemReviewSettlement (env : WorkItemEnv) (db : Db) (workItemId : ℕ) : ReviewPlan :=
  let jobs := listJobsByWorkItem db workItemId
  let gates := jobs.filter canRetireHumanGateForWorkItemApproval
  let referenced := gates.filterMap workItemApprovalGateOriginalJobId
  { originals := jobs.filter (fun job => job.jobType != .humanInput &&
      (job.status == .waitingOnReview || (decide (job.id ∈ referenced) &&
        (decide (job.status ∈ reviewSettlementOriginalStatuses) || env.needsReview job))))
    gates := gates }

/-- `settleWorkItemReviewPlan`. -/
def settleWorkItemReviewPlan (clock : Clock) (db : Db) (plan : ReviewPlan) : Db :=
  forceAll clock .succeeded
    (plan.originals.filter (fun job => job.status ∈ reviewSettlementOriginalStatuses))
    (forceAll clock .canceled (plan.gates.filter reviewGateNeedsRetirement) db)

/-- The plan of a merge. -/
def mergedReviewPlan (env : WorkItemEnv) (jobs : List Job) : ReviewPlan :=
  { originals := jobs.filter (fun job => job.jobType != .humanInput &&
      (job.status == .waitingOnReview || (env.needsReview job && !env.reviewRecorded job)))
    gates := jobs.filter (fun job => reviewGateNeedsRetirement job &&
      (reviewGateOriginalJobId job).isSome && !isPostMergeDbGateJob job) }

/-- The jobs a merge cancels after its plan: a gate that is being answered finishes itself. -/
def staleAfterMerge (env : WorkItemEnv) (db : Db) (plan : ReviewPlan) (job : Job) : Bool :=
  !(plan.originals ++ plan.gates).any (fun settled => settled.id == job.id) &&
    !job.isTerminal && job.jobType ∉ nonCompletionBlockingJobTypes && !isPushOfferJob job &&
    !isPostMergeDbTaskJob env job &&
    !(job.jobType == .humanInput &&
      (db.getHumanGate job.id).any (fun gate => gate.gateState == .resolving))

/-- `settleMergedWorkItemReviewJobs`. -/
def settleMergedWorkItemReviewJobs (env : WorkItemEnv) (clock : Clock) (db : Db)
    (workItemId : ℕ) : Db :=
  let jobs := listJobsByWorkItem db workItemId
  let plan := mergedReviewPlan env jobs
  let settled := settleWorkItemReviewPlan clock db plan
  let canceled := forceAll clock .canceled (jobs.filter (staleAfterMerge env settled plan)) settled
  (env.postMergeEffects canceled (jobs.filter (isPostMergeHeldDbJob env))).foldl
    (applyGateEffect clock) canceled

/-! ## 4. The merge state -/

/-- `UPDATE work_items SET f WHERE id = ?`. -/
def updateWorkItem (db : Db) (workItemId : ℕ) (f : WorkItem → WorkItem) : Db :=
  db.updateWorkItems (fun wi => wi.id == workItemId) f

/-- The claims recorded by the jobs of a merged work item, one for each claimant, kind and
path. -/
def existingOrderClaims (db : Db) (mergedWorkItemId : ℕ) : List (ℕ × LockRow) :=
  (((listJobsByWorkItem db mergedWorkItemId).flatMap
      (fun job => job.payload.existingOrderReleases)).map
    (fun entry => (entry.sourceWorkItemId, (⟨normalizeLockPath entry.path, entry.lockKind⟩ :
      LockRow)))).filter
    (fun claim => 0 < claim.1 && claim.1 != mergedWorkItemId && claim.2.path != "") |>.eraseDups

/-- A claimant that gets its lock back. -/
def claimantHoldsFileLocks (db : Db) (claimantId : ℕ) : Bool :=
  (db.getWorkItem claimantId).any (fun claimant => claimant.mergeState != some .merged &&
    claimant.status ∉ wiLockReleaseStatuses &&
    !(claimant.status == .complete && !completeWorkItemHoldsFileLocks claimant))

/-- `INSERT OR IGNORE INTO work_item_file_locks` of a restored claim. -/
def restoreClaim (db : Db) (claim : ℕ × LockRow) : Db :=
  insertWorkItemFileLock db
    { workItemId := claim.1, path := claim.2.path, lockKind := claim.2.lockKind }

/-- `restoreExistingOrderClaimLocks`. -/
def restoreExistingOrderClaimLocks (db : Db) (mergedWorkItemId : ℕ) : Db :=
  let restored := ((existingOrderClaims db mergedWorkItemId).filter
    (fun claim => claimantHoldsFileLocks db claim.1)).foldl restoreClaim db
  if restored.workItemFileLocks.length = db.workItemFileLocks.length then restored
  else restored.notify { reason := .workItemLocksRestored }

/-- `releaseWorkItemLocksForMergeState`. -/
def releaseWorkItemLocksForMergeState (db : Db) (workItemId : ℕ)
    (mergeState : Option MergeState) : Db :=
  if mergeState = some .merged then
    restoreExistingOrderClaimLocks (releaseWorkItemFileLocks db workItemId .workItemMerged)
      workItemId
  else db

/-- `settleCrossWiUpstreamDispositionGate`, for a gate that still asks. -/
def settleUpstreamGate (clock : Clock) (db : Db) (gateJobId : ℕ) : Db :=
  let p := fun gate : HumanGate => gate.gateJobId == gateJobId && gate.gateState == .opened
  if Table.changes p db.humanGates = 0 ∨ hasLiveJob db gateJobId = false then db
  else
    let resolved := db.updateHumanGates p (fun gate =>
      { gate.resolve with resolutionAction := some "wait" })
    match db.getJob gateJobId with
    | none => resolved
    | some gate => (forceUpdateJobStatus clock resolved gateJobId .succeeded [gate.status]).1

/-- `setMergeState`. -/
def setMergeState (env : WorkItemEnv) (clock : Clock) (db : Db) (workItemId : ℕ)
    (mergeState : Option MergeState) : Db :=
  let written := updateWorkItem db workItemId (fun wi => { wi with mergeState := mergeState })
  let settled := if mergeState = some .merged then
    let reviewed := settleMergedWorkItemReviewJobs env clock written workItemId
    (env.upstreamGates reviewed workItemId).foldl (settleUpstreamGate clock) reviewed
  else written
  releaseWorkItemLocksForMergeState settled workItemId mergeState

/-! ## 5. The status setter -/

/-- The options of `updateWorkItemStatus`. -/
structure CompletionOptions where
  allowTerminalFailureBlockers : Bool := false
  resolvePendingReviews : Bool := false
  preserveJobIds : List ℕ := []
  deriving DecidableEq, Repr

/-- `completionReadinessForWorkItem`: the review plan of a completion that may go on. -/
def completionReadiness (env : WorkItemEnv) (db : Db) (wi : WorkItem)
    (options : CompletionOptions) : Option ReviewPlan :=
  let jobs := (listJobsByWorkItem db wi.id).filter (fun job => !env.isShadowFanout job)
  let plan := if options.resolvePendingReviews then pendingWorkItemReviewSettlement env db wi.id
    else ⟨[], []⟩
  let blockers := (completionBlockersForWorkItem env db wi.id).filter (fun job =>
    !(options.allowTerminalFailureBlockers && decide (job.status ∈ failedJobStatuses)) &&
      !(plan.originals ++ plan.gates).any (fun settled => settled.id == job.id))
  if env.missingExecution wi jobs || blockers != [] then none else some plan

/-- `cancelInactiveWorkItemJobs`. -/
def cancelInactiveWorkItemJobs (clock : Clock) (db : Db) (workItemId : ℕ)
    (preserveJobIds : List ℕ) : Db :=
  forceAll clock .canceled ((listJobsByWorkItem db workItemId).filter (fun job =>
    !job.isTerminal && job.status ∉ activeLeaseStatuses && job.id ∉ preserveJobIds)) db

/-- What `updateWorkItemStatus` does to jobs before it writes the row. -/
def settleJobsForStatus (env : WorkItemEnv) (clock : Clock) (db : Db) (wi : WorkItem)
    (status : WorkItemStatus) (preserveJobIds : List ℕ) : Db :=
  let held := if status ∈ wiLockReleaseStatuses ∧ wi.status ≠ status then
    forceAll clock .canceled
      ((listJobsByWorkItem db wi.id).filter (isPostMergeHeldDbJob env)) db
  else db
  if status = .canceled then cancelInactiveWorkItemJobs clock held wi.id preserveJobIds else held

/-- The row `updateWorkItemStatus` writes: a completion with a branch awaits its review. -/
def writeWorkItemStatus (db : Db) (wi : WorkItem) (status : WorkItemStatus)
    (hasMergedEvidence : Bool) : Db :=
  let written := updateWorkItem db wi.id (fun row => { row with status := status })
  if status = .complete ∧ hasMergedEvidence = false ∧ wi.branchName.any (· != "") ∧
      wi.mergeState = none then
    written.updateWorkItems (fun row => row.id == wi.id && row.mergeState == none)
      (fun row => { row with mergeState := some .pendingReview })
  else written

/-- What `updateWorkItemStatus` does after it wrote the row. -/
def settleWorkItemStatus (env : WorkItemEnv) (clock : Clock) (db : Db) (wi : WorkItem)
    (status : WorkItemStatus) (hasMergedEvidence : Bool) : Db :=
  let opened := if wi.status ≠ status ∧ ¬(status = .complete ∧ hasMergedEvidence) then
    (env.dispositionEffects db wi.id status).foldl (applyGateEffect clock) db
  else db
  let released := releaseWorkItemLocksForStatus opened wi.id status
  let bare := if status = .complete ∧ wi.branchName.all (· == "") then
    releaseWorkItemFileLocks released wi.id (.named "work_item_complete_no_branch")
  else released
  bare.notify { reason := .workItemStatus status, workItemId := some wi.id }

/-- The rest of `updateWorkItemStatus` once a transition is allowed; `db` is after a merge state
repaired from evidence. -/
def applyWorkItemStatus (env : WorkItemEnv) (clock : Clock) (db : Db) (wi : WorkItem)
    (status : WorkItemStatus) (options : CompletionOptions) (hasMergedEvidence : Bool) :
    Option Db :=
  let reviewed := if status = .complete then
      if hasMergedEvidence then some (settleMergedWorkItemReviewJobs env clock db wi.id)
      else (completionReadiness env db wi options).map (settleWorkItemReviewPlan clock db)
    else some db
  reviewed.map (fun reviewed => settleWorkItemStatus env clock
    (writeWorkItemStatus (settleJobsForStatus env clock reviewed wi status options.preserveJobIds)
      wi status hasMergedEvidence) wi status hasMergedEvidence)

/-- `updateWorkItemStatus`; the answer is whether the transition was made. -/
def updateWorkItemStatus (env : WorkItemEnv) (clock : Clock) (db : Db) (workItemId : ℕ)
    (status : WorkItemStatus) (options : CompletionOptions) : Db × Bool :=
  match db.getWorkItem workItemId with
  | none => (db, false)
  | some wi =>
    let hasMergedEvidence := effectiveMergedEvidence env wi
    if hasMergedEvidence ∧ status ≠ .complete then (db, false)
    else if wi.mergeState = some .mergeAuthorized ∧ status ≠ .complete then (db, false)
    else
      let repaired := if hasMergedEvidence ∧ wi.mergeState ≠ some .merged then
        setMergeState env clock db wi.id (some .merged) else db
      if wi.status ∈ terminalWorkItemStatuses ∧ status ∉ terminalWorkItemStatuses ∧
          wi.status ≠ status ∧ env.isActiveIterative wi = false then (repaired, false)
      else match applyWorkItemStatus env clock repaired wi status options hasMergedEvidence with
        | none => (repaired, false)
        | some db' => (db', true)

/-! ## 6. The status of the jobs -/

/-- The gates of a work item. -/
def gatesOfWorkItem (db : Db) (workItemId : ℕ) : List HumanGate :=
  db.humanGates.filter (fun gate => gateWorkItem db gate == some workItemId)

/-- `row.gate_state` is resolving or resolved, and an action is recorded. -/
def HumanGate.isAccepted (gate : HumanGate) : Bool :=
  gate.gateState ∈ [GateState.resolving, .resolved] && gate.resolutionAction.isSome

/-- The status of live jobs that wait for a human. -/
def waitingStatus (gates : List HumanGate) (stateJobs : List Job) : WorkItemStatus :=
  let stateOf := fun job : Job => (gates.find? (fun gate => gate.gateJobId == job.id)).map
    HumanGate.gateState
  let accepted := gates.filter HumanGate.isAccepted
  if stateJobs.any (fun job => job.jobType == .humanInput && !job.isTerminal &&
      (stateOf job).all (fun state => state == .opened)) then .waitingOnHuman
  else if stateJobs.any (fun job => job.status == .waitingOnHuman &&
      ((job.jobType == .humanInput && accepted.any (fun gate => gate.gateJobId == job.id)) ||
        accepted.any (fun gate => gate.originalJobId == some job.id))) then .running
  else .blocked

/-- The status a work item has by its jobs; none where they do not say. -/
def statusOfJobs (env : WorkItemEnv) (db : Db) (wi : WorkItem) : Option WorkItemStatus :=
  let jobs := statusJobs env db wi.id
  let completionJobs := jobs.filter (fun job => job.jobType ∉ nonCompletionBlockingJobTypes)
  let stateJobs := if completionJobs = [] then jobs else completionJobs
  let live := stateJobs.filter (fun job => !job.isTerminal)
  let working := if live.all (fun job => job.jobType ∈ pipelineBootstrapJobTypes) then
    WorkItemStatus.planning else .running
  let hasStatus := fun status : JobStatus => stateJobs.any (fun job => job.status == status)
  if jobs = [] then none
  else if completionJobs ≠ [] ∧ completionJobs.all Job.isTerminal then
    if completionJobs.all (fun job => job.status == .canceled) then some .canceled
    else if completionBlockersForWorkItem env db wi.id = [] ∧
        env.missingExecution wi completionJobs = false then some .complete
    else some .failed
  else if hasStatus .waitingOnHuman then some (waitingStatus (gatesOfWorkItem db wi.id) stateJobs)
  else if stateJobs.any (fun job => job.status ∈ activeLeaseStatuses) then some working
  else if hasStatus .waitingOnReview then some .waitingOnReview
  else if hasStatus .blocked then some .blocked
  else if hasStatus .queued then some working
  else none

/-- `refreshWorkItemStatus`. -/
def refreshWorkItemStatus (env : WorkItemEnv) (clock : Clock) (db : Db) (workItemId : ℕ) : Db :=
  match db.getWorkItem workItemId with
  | none => db
  | some wi =>
    if wi.status = .canceled then db
    else if effectiveMergedEvidence env wi then
      let merged := if wi.mergeState ≠ some .merged then
        setMergeState env clock db workItemId (some .merged) else db
      if wi.status ≠ .complete then
        (updateWorkItemStatus env clock merged workItemId .complete
          { allowTerminalFailureBlockers := true, resolvePendingReviews := true }).1
      else merged
    else match statusOfJobs env db wi with
      | none => db
      | some status =>
        if wi.status = status then db
        else (updateWorkItemStatus env clock db workItemId status {}).1

/-! ## 7. The claim of an automatic merge -/

/-- `MERGE_HOLDING_GATE_ACTIONS`. -/
def mergeHoldingGateActions : List String :=
  ["fail", "replan", "retry", "retry_with_changes", "reject", "deny", "revert", "extend"]

/-- `MERGE_RELEASING_RETRY_REVIEW_TYPES`. -/
def mergeReleasingRetryReviewTypes : List String :=
  ["failure_threshold_exhausted", "fix_chain_exhausted", "work_item_failure_disposition",
    "blocked_recovery", "dead_letter_recovery", "stall_exhausted_recovery"]

/-- The `WHERE` clause of `findMergeHoldingGate` on a gate and its job. -/
def holdsMerge (env : WorkItemEnv) (gate : HumanGate) (job : Job) : Bool :=
  gate.isActive || (gate.gateState == .resolved &&
    gate.resolutionAction.any (· ∈ mergeHoldingGateActions) &&
    !(job.payload.reviewType == some "merge_verification_review" && env.rejectionSpent job) &&
    !(gate.resolutionAction.any (· ∈ ["retry", "retry_with_changes"]) &&
      job.payload.reviewType.any (· ∈ mergeReleasingRetryReviewTypes)))

/-- `findMergeHoldingGate`: whether one is found. -/
def findMergeHoldingGate (env : WorkItemEnv) (db : Db) (workItemId : ℕ) : Bool :=
  db.humanGates.any (fun gate => (db.getJob gate.gateJobId).any (fun job =>
    job.workItemId == some workItemId && holdsMerge env gate job))

/-- Why an automatic merge is not authorized. -/
inductive MergeRefusal
  | noSuchWi | statusChanged | branchChanged | alreadyMerged | upstreamMergePending
  | completionBlocked | humanGateActive | verificationReviewRequired | authorizationRaced
  deriving DecidableEq, Repr

/-- The checks of `authorizeWorkItemAutoMerge` before its verification review. -/
def checkMergeClaim (env : WorkItemEnv) (db : Db) (wi : WorkItem)
    (expectedBranch : Option String) : Option MergeRefusal :=
  let branch := trim (wi.branchName.getD "")
  if wi.status ≠ .complete then some .statusChanged
  else if branch = "" ∨ expectedBranch.any (fun expected => expected != "" && branch != expected)
  then some .branchChanged
  else if wi.mergeState = some .merged then some .alreadyMerged
  else if env.pendingUpstream db wi then some .upstreamMergePending
  else if completionBlockersForWorkItem env db wi.id ≠ [] then some .completionBlocked
  else if findMergeHoldingGate env db wi.id then some .humanGateActive
  else none

/-- The write of a claim. -/
def claimMerge (db : Db) (wi : WorkItem) : Db × Except MergeRefusal (Option MergeState) :=
  let p := fun row : WorkItem => row.id == wi.id && row.status == .complete &&
    row.branchName == some (trim (wi.branchName.getD "")) && row.mergeState != some .merged
  if wi.mergeState = some .mergeAuthorized then (db, .ok wi.mergeState)
  else if Table.changes p db.workItems ≠ 1 then (db, .error .authorizationRaced)
  else (db.updateWorkItems p (fun row => { row with mergeState := some .mergeAuthorized }),
    .ok wi.mergeState)

/-- `authorizeWorkItemAutoMerge`; the answer is the previous merge state. -/
def authorizeWorkItemAutoMerge (env : WorkItemEnv) (clock : Clock) (db : Db) (workItemId : ℕ)
    (expectedBranch : Option String) : Db × Except MergeRefusal (Option MergeState) :=
  match db.getWorkItem workItemId with
  | none => (db, .error .noSuchWi)
  | some wi =>
    match checkMergeClaim env db wi expectedBranch with
    | some refusal => (db, .error refusal)
    | none =>
      match env.verificationReview db wi with
      | .holds => (db, .error .verificationReviewRequired)
      | .opens spec => ((openParkedGate clock db spec).1, .error .verificationReviewRequired)
      | .notRequired => claimMerge db wi

/-- `releaseWorkItemAutoMergeAuthorization`. -/
def releaseWorkItemAutoMergeAuthorization (db : Db) (workItemId : ℕ)
    (previousMergeState : Option MergeState) : Db :=
  db.updateWorkItems (fun wi => wi.id == workItemId && wi.mergeState == some .mergeAuthorized)
    (fun wi => { wi with mergeState :=
      if previousMergeState = some .mergeAuthorized then none else previousMergeState })

/-! ## 8. The writers with guards of their own -/

/-- `holdWorkItemForPendingMerge`. -/
def holdWorkItemForPendingMerge (db : Db) (workItemId : ℕ) : Db × Bool :=
  match db.getWorkItem workItemId with
  | none => (db, false)
  | some wi =>
    if wi.mergeState = some .merged ∨ wi.status ≠ .complete then (db, true)
    else if wi.branchName.all (· == "") then (db, false)
    else
      let held := db.updateWorkItems (fun row => row.id == workItemId && row.status == .complete &&
        row.mergeState != some .merged && row.branchName.isSome)
        (fun row => { row with status := .waitingOnReview })
      (held.notify { reason := .workItemMergePending, workItemId := some workItemId }, true)

/-- `activeMergeFailureRecoveryGateId`. -/
def activeMergeFailureRecoveryGateId (env : WorkItemEnv) (db : Db) (workItemId : ℕ) : Option ℕ :=
  (newestFirst ((listJobsByWorkItem db workItemId).filter (fun job =>
    job.jobType == .humanInput && (db.getHumanGate job.id).any HumanGate.isActive &&
      env.isMergeFailureGate job))).head?.map Job.id

/-- `updateJobPayload` of a gate's job, and the refresh of its contract. -/
def refreshMergeFailureGate (db : Db) (gateJobId workItemId : ℕ) (payload : Payload)
    (contract : GateContract) : Db :=
  let updated := db.updateJobs (fun job => job.id == gateJobId)
    (fun job => { job with payload := payload })
  refreshHumanGateContract (updated.notify
    { reason := .jobPayloadUpdated, jobId := some gateJobId,
      workItemId := some workItemId }) gateJobId contract

/-- `markWorkItemMergeFailed`, with the gate it opens or refreshes.  A payload that names no gate,
or another kind of gate, throws and rolls everything back. -/
def markWorkItemMergeFailed (env : WorkItemEnv) (clock : Clock) (db : Db) (workItemId : ℕ)
    (spec : GateSpec) : Db × Bool :=
  let p := fun wi : WorkItem => wi.id == workItemId && wi.mergeState != some .merged
  if Table.changes p db.workItems = 0 then (db, false)
  else
    let failed := db.updateWorkItems p (fun wi => { wi with mergeState := some .mergeFailed })
    match activeMergeFailureRecoveryGateId env failed workItemId with
    | none =>
      let opened := openParkedGate clock failed spec
      if opened.2.isNone then (db, false) else (opened.1, true)
    | some gateJobId =>
      match spec.contract with
      | none => (db, false)
      | some contract =>
        if (failed.getHumanGate gateJobId).any (fun gate => gate.gateKind != contract.gateKind)
        then (db, false)
        else (refreshMergeFailureGate failed gateJobId workItemId spec.job.payload contract, true)

/-- The statuses `reopenWorkItemForFollowUp` accepts. -/
def reopenStatuses : List WorkItemStatus :=
  [.queued, .planning, .planned, .running, .blocked, .waitingOnHuman, .waitingOnReview]

/-- `recordWorkItemBranchReset`. -/
def recordWorkItemBranchReset (db : Db) (workItemId : ℕ) : Db :=
  updateWorkItem db workItemId (fun wi => { wi with generation := wi.generation + 1 })

/-- `reopenWorkItemForFollowUp`. -/
def reopenWorkItemForFollowUp (db : Db) (workItemId : ℕ) (status : WorkItemStatus)
    (reason : String) : Db × Bool :=
  match db.getWorkItem workItemId with
  | none => (db, false)
  | some wi =>
    if status ∉ reopenStatuses ∨ wi.status = .canceled then (db, false)
    else
      let reopened := updateWorkItem db workItemId
        (fun row => { row with status := status, mergeState := none })
      let released := releaseWorkItemFileLocks reopened workItemId (.named reason)
      let keepsUnmergedBranch := wi.hasBranch && wi.mergeState != some .merged
      (if keepsUnmergedBranch then released else recordWorkItemBranchReset released workItemId,
        true)

/-- `reviewRejectionReadinessInternal`. -/
def canRequeueAfterRejection (env : WorkItemEnv) (db : Db) (wi : WorkItem)
    (preserveJobIds : List ℕ) : Bool :=
  !effectiveMergedEvidence env wi &&
    !(listJobsByWorkItem db wi.id).any (fun job => job.status ∈ activeLeaseStatuses &&
      job.jobType != .atlasWarm && job.id ∉ preserveJobIds)

/-- `discardCrossWiSyncRecordsForWorkItem`, one job: its transfers went with the branch. -/
def discardSyncRecords (db : Db) (job : Job) : Db :=
  if job.payload.crossWiFileSyncs = [] then db
  else (db.updateJobs (fun j => j.id == job.id)
    (fun j => { j with payload := { j.payload with crossWiFileSyncs := [] } })).notify
      { reason := .jobPayloadUpdated, jobId := some job.id, workItemId := job.workItemId }

/-- `forgetDiscardedWorkItemBranch`. -/
def forgetDiscardedWorkItemBranch (db : Db) (workItemId : ℕ) (lockReason : ReleaseReason) : Db :=
  let released := releaseWorkItemFileLocks db workItemId lockReason
  recordWorkItemBranchReset
    ((listJobsByWorkItem released workItemId).foldl discardSyncRecords released) workItemId

/-- A job a replan supersedes is canceled, unless its status spares it. -/
def supersedeJob (clock : Clock) (spared : List JobStatus) (db : Db) (job : Job) : Db :=
  match db.getJob job.id with
  | none => db
  | some fresh =>
    if fresh.status ∈ spared then db
    else (forceUpdateJobStatus clock db fresh.id .canceled [fresh.status]).1

/-- A leaf of the rejected work that runs again. -/
def retryJob (clock : Clock) (db : Db) (jobId : ℕ) : Db :=
  match db.getJob jobId with
  | none => db
  | some fresh =>
    let queued := forceUpdateJobStatus clock db jobId .queued [fresh.status]
    if queued.2 then
      queued.1.updateJobs (fun job => job.id == jobId)
        (fun job => { job with readyAt := some clock.now })
    else queued.1

/-- The options of `requeueWorkItemAfterRejection`: the payloads of the plan job that replaces
the old jobs, if the caller asks for one or the requeue decides on one. -/
structure RejectionOptions where
  preserveJobIds : List ℕ := []
  replan : Option Payload := none
  fallbackPlan : Payload := {}
  deriving DecidableEq, Repr

/-- The plan job of a requeue. -/
def planSpec (workItemId : ℕ) (payload : Payload) : JobSpec :=
  { workItemId := some workItemId, jobType := .plan, payload := payload }

/-- The old plan's work goes: its implementation jobs whatever their outcome, the failed jobs that
would still block completion, and the tasks held for the discarded branch. -/
def supersedeOldPlan (env : WorkItemEnv) (clock : Clock) (db : Db) (workItemId : ℕ)
    (jobs heldDbTasks : List Job) (kept : List ℕ) : Db :=
  let superseded := (jobs.filter (fun job => job.status != .canceled &&
    job.jobType ∈ mutatingJobTypes)).foldl (supersedeJob clock [.canceled]) db
  let unblocked := ((completionBlockersForWorkItem env superseded workItemId).filter (fun job =>
    job.id ∉ kept && decide (job.status ∈ failedJobStatuses))).foldl
      (supersedeJob clock [.canceled]) superseded
  heldDbTasks.foldl (supersedeJob clock terminalJobStatuses) unblocked

/-- What a requeue does to the jobs: those that are pending are canceled; a replan supersedes the
old plan's work, and without one the leaves run again. -/
def requeueRejectedJobs (env : WorkItemEnv) (clock : Clock) (db : Db) (wi : WorkItem)
    (options : RejectionOptions) : Db :=
  let jobs := (listJobsByWorkItem db wi.id).filter (fun job => job.id ∉ options.preserveJobIds)
  let branchDiscarded := trim (wi.branchName.getD "") = ""
  let replan := options.replan.or
    (if branchDiscarded ∧ env.deliveredBranchWork db wi.id then some options.fallbackPlan
    else none)
  let leaves := if replan.isSome then [] else env.retryJobs db wi.id
  let planned := if replan.isNone ∧ leaves = [] then
    createJob clock db (planSpec wi.id options.fallbackPlan) none else (db, none)
  let pending := forceAll clock .canceled
    (jobs.filter (fun job => job.jobType != .atlasWarm && !job.isTerminal)) planned.1
  let retired := forceAll clock .canceled (jobs.filter (fun job =>
    (reviewGateOriginalJobId job).isSome && reviewGateNeedsRetirement job)) pending
  match replan with
  | some payload =>
    let created := createJob clock retired (planSpec wi.id payload) none
    supersedeOldPlan env clock created.1 wi.id jobs (env.heldDbTasks db wi.id)
      (options.preserveJobIds ++ created.2.toList)
  | none => (leaves ++ planned.2.toList).foldl (retryJob clock) retired

/-- `requeueWorkItemAfterRejection`. -/
def requeueWorkItemAfterRejection (env : WorkItemEnv) (clock : Clock) (db : Db) (workItemId : ℕ)
    (options : RejectionOptions) : Db × Bool :=
  match db.getWorkItem workItemId with
  | none => (db, false)
  | some wi =>
    if canRequeueAfterRejection env db wi options.preserveJobIds = false then (db, false)
    else
      let requeued := updateWorkItem (requeueRejectedJobs env clock db wi options) workItemId
        (fun row => { row with status := .queued, mergeState := none })
      let settled := if trim (wi.branchName.getD "") = "" then
        forgetDiscardedWorkItemBranch requeued workItemId (.named "work_item_rejected")
      else requeued
      (refreshWorkItemStatus env clock settled workItemId, true)

end PosseClient
