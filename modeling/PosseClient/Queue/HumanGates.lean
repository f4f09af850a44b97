/-
# Human gates

`human-gates.js` and `human-gate-decisions.js`.  A gate is a question to the operator about a
job; its row says in which states of the job it may be answered and with which actions.  An
answer claims the gate (`beginHumanGateResolution`), is applied, and completes it, or reopens it.

* The contract of a gate is read off its job's payload and a table of the catalog; here it is
  an argument, and `none` stands for a payload the catalog rejects.
* Each function is one transaction; `reconcileHumanGates` is one transaction with ten passes,
  each over the rows it selects when its turn comes.
* The durable events and the two registered hooks are what the code reads from elsewhere: they
  are the `GateEnv` of a reconciliation.
-/
import PosseClient.Queue.Leases

namespace PosseClient

/-! ## 1. Contracts and reads -/

/-- `humanGateContractForPayload`, the part a gate's row keeps. -/
structure GateContract where
  gateKind : String
  originalJobId : Option ℕ := none
  allowedSourceStates : List JobStatus := []
  allowedActions : List String := []
  deriving DecidableEq, Repr

/-- `WORK_ITEM_SINGLETON_GATE_KINDS`. -/
def workItemSingletonGateKinds : List String :=
  ["one_shot_file_scope", "work_item_failure_disposition", "cross_wi_upstream_disposition"]

/-- A gate in one of `ACTIVE_GATE_STATES`. -/
def HumanGate.isActive (gate : HumanGate) : Bool := gate.gateState ∈ activeGateStates

/-- A job that can still be answered. -/
def Job.isTerminal (job : Job) : Bool := job.status ∈ terminalJobStatuses

/-- `EXISTS (SELECT 1 FROM jobs j WHERE j.id = ? AND j.status NOT IN (..))`. -/
def hasLiveJob (db : Db) (jobId : ℕ) : Bool := (db.getJob jobId).any (fun job => !job.isTerminal)

/-- The work item of a gate's job. -/
def gateWorkItem (db : Db) (gate : HumanGate) : Option ℕ :=
  (db.getJob gate.gateJobId).bind Job.workItemId

/-- `jobHasLiveLeaseAt`. -/
def jobHasLiveLeaseAt (job : Job) (observedAt : ℤ) : Bool :=
  job.leaseToken.isSome && job.leaseExpiresAt.any (fun expiresAt => observedAt ≤ expiresAt)

/-- A gate asks the same question of the same job. -/
def HumanGate.asks (originalJobId : Option ℕ) (gateKind : String) (gate : HumanGate) : Bool :=
  gate.originalJobId == originalJobId && gate.gateKind == gateKind

/-- `ORDER BY generation DESC LIMIT 1`. -/
def latestGeneration (gates : List HumanGate) : Option HumanGate :=
  gates.foldl (fun best g => if best.any (fun b => g.generation ≤ b.generation) then best else some g)
    none

/-- The work item a gate without an original job is the only one of its kind in. -/
def singletonWorkItemId (db : Db) (gateJobId : ℕ) (contract : GateContract) : Option ℕ :=
  if contract.originalJobId.isNone && contract.gateKind ∈ workItemSingletonGateKinds then
    ((db.getJob gateJobId).bind Job.workItemId).filter (fun id => 0 < id)
  else none

/-- The gates a new gate competes with: those of its original job and kind, or of its work item
and kind where it is the only one. -/
def competes (db : Db) (gateJobId : ℕ) (contract : GateContract) (gate : HumanGate) : Bool :=
  match contract.originalJobId with
  | some original => gate.asks (some original) contract.gateKind
  | none =>
    match singletonWorkItemId db gateJobId contract with
    | some workItemId =>
      gate.asks none contract.gateKind && gateWorkItem db gate == some workItemId
    | none => false

/-! ## 2. The functions of a gate -/

/-- `UPDATE human_gates SET gate_state = 'superseded', resolver_lease_token = NULL`. -/
def HumanGate.supersede (gate : HumanGate) : HumanGate :=
  { gate with gateState := .superseded, resolverLeaseToken := none }

/-- `UPDATE human_gates SET gate_state = 'open'`, with the answer cleared. -/
def HumanGate.reopen (gate : HumanGate) : HumanGate :=
  { gate with
    gateState := .opened, resolutionAction := none, idempotencyKey := none,
    resolverLeaseToken := none }

/-- `UPDATE human_gates SET gate_state = 'resolved', resolver_lease_token = NULL`. -/
def HumanGate.resolve (gate : HumanGate) : HumanGate :=
  { gate with gateState := .resolved, resolverLeaseToken := none }

/-- A new gate supersedes the active ones it competes with whose job is terminal or gone. -/
def supersedeStaleGates (db : Db) (gateJobId : ℕ) (contract : GateContract) : Db :=
  db.updateHumanGates (fun gate => competes db gateJobId contract gate && gate.isActive &&
    !hasLiveJob db gate.gateJobId) HumanGate.supersede

/-- The row of a new gate. -/
def newHumanGate (db : Db) (gateJobId : ℕ) (contract : GateContract) : HumanGate :=
  let previous := latestGeneration (db.humanGates.filter (competes db gateJobId contract))
  { gateJobId := gateJobId
    gateKind := contract.gateKind
    originalJobId := contract.originalJobId
    generation := (previous.map HumanGate.generation).getD 0 + 1
    allowedSourceStates := contract.allowedSourceStates
    allowedActions := contract.allowedActions.eraseDups }

/-- The body of `registerHumanGate`; without an answer it has thrown, and what it superseded
before a rejected insert is undone only by the transaction around it. -/
def registerHumanGateIn (db : Db) (gateJobId : ℕ) (contract : Option GateContract) :
    Db × Option HumanGate :=
  match db.getHumanGate gateJobId with
  | some existing => (db, some existing)
  | none =>
    match contract with
    | none => (db, none)
    | some contract =>
      let retired := supersedeStaleGates db gateJobId contract
      match latestGeneration (retired.humanGates.filter
          (fun gate => competes db gateJobId contract gate && gate.isActive)) with
      | some competing => (retired, some competing)
      | none =>
        -- both job columns are foreign keys
        if (db.getJob gateJobId).isNone ∨
            contract.originalJobId.any (fun id => (db.getJob id).isNone) then (retired, none)
        else
          let gate := newHumanGate retired gateJobId contract
          ({ retired with humanGates := retired.humanGates ++ [gate] }, some gate)

/-- `registerHumanGate`. -/
def registerHumanGate (db : Db) (gateJobId : ℕ) (contract : Option GateContract) :
    Db × Option HumanGate :=
  let registered := registerHumanGateIn db gateJobId contract
  if registered.2.isNone then (db, none) else registered

/-- `refreshHumanGateContract`. -/
def refreshHumanGateContract (db : Db) (gateJobId : ℕ) (contract : GateContract) : Db :=
  db.updateHumanGates
    (fun gate => gate.gateJobId == gateJobId && gate.isActive && gate.gateKind == contract.gateKind)
    (fun gate => { gate with
      allowedActions := contract.allowedActions.eraseDups, generation := gate.generation + 1 })

/-- `reviseOpenHumanGateGeneration`: the row is read in the same transaction. -/
def reviseOpenHumanGateGeneration (db : Db) (gateJobId : ℕ) : Db :=
  db.updateHumanGates (fun gate => gate.gateJobId == gateJobId && gate.gateState == .opened)
    (fun gate => { gate with generation := gate.generation + 1 })

/-- Why an answer is refused. -/
inductive GateRefusal
  | gateContractMissing
  | actionNotAllowed (allowedActions : List String)
  | gateAlreadyResolved | gateNotOpen | gateJobMissing | workItemMergeAuthorized
  | staleGateLease | originalJobMissing
  | originalStateChanged (expectedStates : List JobStatus) (actualState : JobStatus)
  | idempotencyKeyTaken
  deriving DecidableEq, Repr

/-- The answer of `beginHumanGateResolution` when it is not refused. -/
structure GateClaim where
  idempotent : Bool
  action : Option String
  generation : ℕ
  deriving DecidableEq, Repr

/-- The action of an answer: an empty one is `respond`. -/
def resolvedAction (action : String) : String := if trim action = "" then "respond" else trim action

/-- `humanGateIdempotencyKey`. -/
def humanGateIdempotencyKey (gateJobId generation : ℕ) (action : String)
    (requestKey : Option String) : IdempotencyKey :=
  match requestKey with
  | some key =>
    if trim key = "" then .digest gateJobId generation action
    else .request (String.ofList ((trim key).toList.take 240))
  | none => .digest gateJobId generation action

/-- `beginResolutionDecision`: the claim, or a refusal. -/
def beginResolutionDecision (gate : HumanGate) (action : String) (requestKey : Option String) :
    Except GateRefusal GateClaim :=
  let resolved := resolvedAction action
  if resolved ∉ gate.allowedActions then .error (.actionNotAllowed gate.allowedActions)
  else if gate.gateState = .resolved then
    if gate.idempotencyKey =
        some (humanGateIdempotencyKey gate.gateJobId gate.generation resolved requestKey) then
      .ok { idempotent := true, action := gate.resolutionAction, generation := gate.generation }
    else .error .gateAlreadyResolved
  else if gate.gateState ≠ .opened then .error .gateNotOpen
  else .ok { idempotent := false, action := some resolved, generation := gate.generation }

/-- `sourceStateDecision`. -/
def sourceStateDecision (original : Option Job) (allowedStates : List JobStatus) :
    Except GateRefusal Unit :=
  match original with
  | none => .error .originalJobMissing
  | some job =>
    if job.status ∈ allowedStates then .ok ()
    else .error (.originalStateChanged allowedStates job.status)

/-- The lease check of `beginHumanGateResolution`. -/
def holdsGateLease (clock : Clock) (gateJob : Job) (leaseToken : Option ℕ) : Bool :=
  leaseToken.isSome && gateJob.leaseToken == leaseToken &&
    jobHasLiveLeaseAt gateJob clock.graceCutoff

/-- The checks of `beginHumanGateResolution` after its decision, in the source's order. -/
def checkClaim (clock : Clock) (db : Db) (gate : HumanGate) (leaseToken : Option ℕ)
    (key : IdempotencyKey) (requireLease : Bool) : Except GateRefusal Unit :=
  match db.getJob gate.gateJobId with
  | none => .error .gateJobMissing
  | some gateJob =>
    if (gateJob.workItemId.bind db.getWorkItem).any
        (fun wi => wi.mergeState == some .mergeAuthorized) then .error .workItemMergeAuthorized
    else if requireLease && !holdsGateLease clock gateJob leaseToken then .error .staleGateLease
    else do
      match gate.originalJobId with
      | none => pure ()
      | some original => sourceStateDecision (db.getJob original) gate.allowedSourceStates
      -- the column is unique
      if db.humanGates.any (fun g => g.gateJobId != gate.gateJobId && g.idempotencyKey == some key)
      then .error .idempotencyKeyTaken else pure ()

/-- The write of a claim. -/
def claimHumanGate (db : Db) (gate : HumanGate) (action : Option String) (key : IdempotencyKey)
    (leaseToken : Option ℕ) : Db :=
  db.updateHumanGates
    (fun g => g.gateJobId == gate.gateJobId && g.gateState == .opened &&
      g.generation == gate.generation)
    (fun g => { g with
      gateState := .resolving, resolutionAction := action, idempotencyKey := some key,
      resolverLeaseToken := leaseToken })

/-- `beginHumanGateResolution`. -/
def beginHumanGateResolution (clock : Clock) (db : Db) (gateJobId : ℕ) (leaseToken : Option ℕ)
    (action : String) (requestKey : Option String) (requireLease : Bool) :
    Db × Except GateRefusal GateClaim :=
  match db.getHumanGate gateJobId with
  | none => (db, .error .gateContractMissing)
  | some gate =>
    match beginResolutionDecision gate action requestKey with
    | .error refusal => (db, .error refusal)
    | .ok claim =>
      if claim.idempotent then (db, .ok claim)
      else
        let key :=
          humanGateIdempotencyKey gateJobId gate.generation (resolvedAction action) requestKey
        match checkClaim clock db gate leaseToken key requireLease with
        | .error refusal => (db, .error refusal)
        | .ok () => (claimHumanGate db gate claim.action key leaseToken, .ok claim)

/-- The resolver of a gate, for a call that may not name a token. -/
def HumanGate.resolvedBy (gateJobId : ℕ) (leaseToken : Option ℕ) (gate : HumanGate) : Bool :=
  gate.gateJobId == gateJobId && gate.gateState == .resolving &&
    (leaseToken.isNone || gate.resolverLeaseToken == leaseToken)

/-- `completeHumanGateResolution`; the answer is `ok`. -/
def completeHumanGateResolution (clock : Clock) (db : Db) (gateJobId : ℕ)
    (leaseToken : Option ℕ) : Db × Bool :=
  match db.getHumanGate gateJobId with
  | none => (db, false)
  | some gate =>
    if gate.gateState = .resolved then (db, true)
    else if gate.resolvedBy gateJobId leaseToken = false then (db, false)
    else if leaseToken.isSome && !(db.getJob gateJobId).any
        (fun job => job.leaseToken == leaseToken && jobHasLiveLeaseAt job clock.graceCutoff) then
      (db, false)
    else (db.updateHumanGates (HumanGate.resolvedBy gateJobId leaseToken) HumanGate.resolve, true)

/-- `reopenHumanGateResolution`. -/
def reopenHumanGateResolution (db : Db) (gateJobId : ℕ) (leaseToken : Option ℕ) : Db :=
  db.updateHumanGates (HumanGate.resolvedBy gateJobId leaseToken) HumanGate.reopen

/-- The active gate of a job. -/
def HumanGate.activeOf (gateJobId : ℕ) (gate : HumanGate) : Bool :=
  gate.gateJobId == gateJobId && gate.isActive

/-- `supersedeHumanGate`. -/
def supersedeHumanGate (db : Db) (gateJobId : ℕ) : Db :=
  db.updateHumanGates (HumanGate.activeOf gateJobId) HumanGate.supersede

/-- `claimHeadlessHumanGateTimeout`. -/
def claimHeadlessHumanGateTimeout (clock : Clock) (db : Db) (gateJobId : ℕ) : Db :=
  db.updateHumanGates
    (fun gate => gate.gateJobId == gateJobId && gate.gateState == .opened &&
      (db.getJob gateJobId).any (fun job => job.status == .waitingOnHuman &&
        !(job.leaseToken.isSome &&
          job.leaseExpiresAt.any (fun expiresAt => clock.graceCutoff < expiresAt))))
    HumanGate.supersede

/-! ## 3. Reconciliation -/

/-- What a reconciliation learns from elsewhere: the contract of a job's payload, the durable
events of a job, which post-merge database job was released, and the hook that abandons the
scope request of a canceled gate, a change of jobs. -/
structure GateEnv where
  contractFor : Job → Option GateContract := fun _ => none
  resolutionFailed : ℕ → Bool := fun _ => false
  headlessTimedOut : ℕ → Bool := fun _ => false
  isReleasedPostMergeDbJob : Job → WorkItem → Bool := fun _ _ => false
  gateCanceled : List Job → ℕ → List Job := fun jobs _ => jobs

/-- The lease of the job is over at the given time. -/
def leaseIsOver (expired : ℤ → Bool) (job : Job) : Bool :=
  job.leaseToken.isNone || job.leaseExpiresAt.all expired

/-- `UPDATE jobs SET status = ?, lease columns = NULL WHERE id = ? AND status NOT IN (..)`. -/
def endGateJob (clock : Clock) (db : Db) (gateJobId : ℕ) (status : JobStatus) : Db :=
  db.updateJobs (fun job => job.id == gateJobId && !job.isTerminal)
    (fun job => { job.unlease with
      status := status, finishedAt := job.finishedAt.or (some clock.now) })

/-- `retireGateJob`. -/
def retireGateJob (env : GateEnv) (clock : Clock) (db : Db) (gateJobId : ℕ) : Db :=
  let canceled := endGateJob clock db gateJobId .canceled
  let hooked := if hasLiveJob db gateJobId then
    { canceled with jobs := env.gateCanceled canceled.jobs gateJobId } else canceled
  hooked.updateHumanGates (HumanGate.activeOf gateJobId) HumanGate.supersede

/-- Pass 1, for one gate: a closed contract ends its job, once no lease is left on it. -/
def closeContractJob (env : GateEnv) (clock : Clock) (db : Db) (gate : HumanGate) : Db :=
  let p := fun job : Job => job.id == gate.gateJobId && !job.isTerminal &&
    leaseIsOver (fun expiresAt => expiresAt ≤ clock.now) job
  if gate.isActive ∨ Table.changes p db.jobs = 0 then db
  else
    let status := if gate.gateState = .resolved then .succeeded else .canceled
    let ended := db.updateJobs p (fun job => { job.unlease with
      status := status, finishedAt := job.finishedAt.or (some clock.now) })
    if status = .canceled then
      { ended with jobs := env.gateCanceled ended.jobs gate.gateJobId } else ended

/-- `shouldRetireTerminalWorkItemGate`. -/
def shouldRetireTerminalWorkItemGate (env : GateEnv) (db : Db) (job : Job) (wi : WorkItem) : Bool :=
  let released := (job.payload.originalJobId.bind db.getJob).any
    (fun original => env.isReleasedPostMergeDbJob original wi)
  let reviews := fun reviewType => job.payload.reviewType == some reviewType
  if released then false
  else if reviews "work_item_failure_disposition" && wi.status == .failed then false
  else if reviews "cross_wi_upstream_disposition" && wi.status == .complete &&
      wi.mergeState != some .merged then false
  else job.payload.subtype != some "push_offer" && !reviews "post_merge_db_task" &&
    !reviews "merge_verification_review" && !reviews "merge_failure_recovery"

/-- Pass 2 selects a gate's job under a terminal work item. -/
def isTerminalWorkItemGate (env : GateEnv) (db : Db) (job : Job) : Bool :=
  job.jobType == .humanInput && (job.workItemId.bind db.getWorkItem).any (fun wi =>
    wi.status ∈ terminalWorkItemStatuses &&
      (!job.isTerminal || (db.getHumanGate job.id).any HumanGate.isActive) &&
      shouldRetireTerminalWorkItemGate env db job wi)

/-- Pass 3 selects an open gate whose original job is in none of the states it allows. -/
def sourceStateDrifted (db : Db) (gate : HumanGate) : Bool :=
  gate.gateState == .opened && hasLiveJob db gate.gateJobId &&
    (gate.originalJobId.bind db.getJob).any
      (fun original => original.status ∉ gate.allowedSourceStates)

/-- `payload.original_job_id ?? payload.plan_job_id`. -/
def Payload.referencedJobId (payload : Payload) : Option ℕ :=
  (payload.originalJobId.or payload.planJobId).filter (fun id => 0 < id)

/-- Pass 4 selects an open gate whose payload names an original job that is gone. -/
def missesOriginal (db : Db) (gate : HumanGate) : Bool :=
  gate.gateState == .opened && gate.originalJobId.isNone && hasLiveJob db gate.gateJobId &&
    ((db.getJob gate.gateJobId).bind (fun job => job.payload.referencedJobId)).any
      (fun id => (db.getJob id).isNone)

/-- Pass 5 selects a live `human_input` job without a gate. -/
def missesGate (db : Db) (job : Job) : Bool :=
  job.jobType == .humanInput && !job.isTerminal && (db.getHumanGate job.id).isNone

/-- Pass 5, for one job: its gate is registered, or the job is canceled for an older one. -/
def registerMissingGate (env : GateEnv) (clock : Clock) (db : Db) (job : Job) : Db :=
  let registered := registerHumanGateIn db job.id (env.contractFor job)
  match registered.2 with
  | none => retireGateJob env clock registered.1 job.id
  | some gate =>
    if gate.gateJobId = job.id then registered.1
    else endGateJob clock registered.1 job.id .canceled

/-- Pass 6, for one open gate of a live job: a contract that changed is rewritten. -/
def refreshDriftedContract (env : GateEnv) (db : Db) (gate : HumanGate) : Db :=
  match (db.getJob gate.gateJobId).bind env.contractFor with
  | none => db
  | some contract =>
    if gate.allowedActions = contract.allowedActions.eraseDups then db
    else db.updateHumanGates
      (fun g => g.gateJobId == gate.gateJobId && g.gateState == .opened &&
        g.generation == gate.generation)
      (fun g => { g with
        allowedActions := contract.allowedActions.eraseDups, generation := g.generation + 1 })

/-- Pass 7 selects an active gate whose job or work item is gone. -/
def isOrphanedGate (db : Db) (gate : HumanGate) : Bool :=
  gate.isActive && match db.getJob gate.gateJobId with
    | none => true
    | some job => job.workItemId.any (fun id => (db.getWorkItem id).isNone)

/-- Passes 7 and 8, for one gate: its job ends and it is superseded. -/
def endGate (clock : Clock) (status : JobStatus) (db : Db) (gate : HumanGate) : Db :=
  (endGateJob clock db gate.gateJobId status).updateHumanGates
    (HumanGate.activeOf gate.gateJobId) HumanGate.supersede

/-- Pass 9 selects a gate whose resolver lost its lease. -/
def isAbandoned (clock : Clock) (db : Db) (gate : HumanGate) : Bool :=
  gate.gateState == .resolving && (db.getJob gate.gateJobId).any (fun job =>
    !job.isTerminal && leaseIsOver (fun expiresAt => expiresAt < clock.graceCutoff) job)

/-- `abandonedResolverDecision`. -/
inductive AbandonedDecision
  | retireMissingOriginal | retireSourceChanged | reopen
  deriving DecidableEq, Repr

/-- `abandonedResolverDecision`. -/
def abandonedResolverDecision (referencedId : Option ℕ) (originalStatus : Option JobStatus)
    (allowedStates : List JobStatus) : AbandonedDecision :=
  match referencedId, originalStatus with
  | some _, none => .retireMissingOriginal
  | _, some status => if status ∈ allowedStates then .reopen else .retireSourceChanged
  | none, none => .reopen

/-- Pass 9, for one gate. -/
def settleAbandoned (env : GateEnv) (clock : Clock) (db : Db) (gate : HumanGate) : Db :=
  let referencedId := (gate.originalJobId.or
    ((db.getJob gate.gateJobId).bind (fun job => job.payload.originalJobId.or
      job.payload.planJobId))).filter (fun id => 0 < id)
  let originalStatus := (referencedId.bind db.getJob).map Job.status
  match abandonedResolverDecision referencedId originalStatus gate.allowedSourceStates with
  | .retireMissingOriginal | .retireSourceChanged => retireGateJob env clock db gate.gateJobId
  | .reopen => db.updateHumanGates
      (fun g => g.gateJobId == gate.gateJobId && g.gateState == .resolving) HumanGate.reopen

/-- Pass 10 selects an active gate whose job has ended. -/
def isInconsistent (db : Db) (gate : HumanGate) : Bool :=
  gate.isActive && (db.getJob gate.gateJobId).any Job.isTerminal

/-- `terminalGateDecision`. -/
inductive TerminalDecision
  | resolve | supersede | reopen
  deriving DecidableEq, Repr

/-- `terminalGateDecision`. -/
def terminalGateDecision (jobStatus : Option JobStatus) (headlessTimedOut : Bool) :
    TerminalDecision :=
  if jobStatus = some .succeeded then .resolve
  else if jobStatus = some .canceled ∨ headlessTimedOut then .supersede
  else .reopen

/-- Pass 10, for one gate. -/
def settleInconsistent (env : GateEnv) (db : Db) (gate : HumanGate) : Db :=
  let p := fun g : HumanGate => g.gateJobId == gate.gateJobId
  match terminalGateDecision ((db.getJob gate.gateJobId).map Job.status)
      (env.headlessTimedOut gate.gateJobId) with
  | .resolve => db.updateHumanGates p HumanGate.resolve
  | .supersede => db.updateHumanGates p HumanGate.supersede
  | .reopen =>
    (db.updateJobs (fun job => job.id == gate.gateJobId)
      (fun job => { job.unlease with status := .waitingOnHuman, finishedAt := none })).updateHumanGates
        p HumanGate.reopen

/-- One pass: the rows it selects now, each in its turn. -/
def gatePass (select : Db → HumanGate → Bool) (step : Db → HumanGate → Db) (db : Db) : Db :=
  (db.humanGates.filter (select db)).foldl step db

/-- One pass over jobs. -/
def jobPass (select : Db → Job → Bool) (step : Db → Job → Db) (db : Db) : Db :=
  (db.jobs.filter (select db)).foldl step db

/-- `ORDER BY id DESC`. -/
def newestFirst (jobs : List Job) : List Job := jobs.mergeSort (fun a b => b.id ≤ a.id)

/-- The first nine passes of `reconcileHumanGates`. -/
def reconcileLiveGates (env : GateEnv) (clock : Clock) (db : Db) : Db :=
  let closed := gatePass (fun _ gate => !gate.isActive) (closeContractJob env clock) db
  let ownersDone := jobPass (isTerminalWorkItemGate env)
    (fun d job => retireGateJob env clock d job.id) closed
  let drifted := gatePass sourceStateDrifted
    (fun d gate => retireGateJob env clock d gate.gateJobId) ownersDone
  let pruned := gatePass missesOriginal
    (fun d gate => retireGateJob env clock d gate.gateJobId) drifted
  let registered := (newestFirst (pruned.jobs.filter (missesGate pruned))).foldl
    (registerMissingGate env clock) pruned
  let refreshed := gatePass
    (fun d gate => gate.gateState == .opened && hasLiveJob d gate.gateJobId)
    (refreshDriftedContract env) registered
  let unorphaned := gatePass isOrphanedGate (endGate clock .canceled) refreshed
  let failed := gatePass
    (fun d gate => gate.isActive && hasLiveJob d gate.gateJobId &&
      env.resolutionFailed gate.gateJobId) (endGate clock .failed) unorphaned
  gatePass (isAbandoned clock) (settleAbandoned env clock) failed

/-- The transaction of `reconcileHumanGates`; its last pass is over the gates of jobs that have
ended. -/
def reconcileHumanGates (env : GateEnv) (clock : Clock) (db : Db) : Db :=
  gatePass isInconsistent (settleInconsistent env) (reconcileLiveGates env clock db)

end PosseClient
