/-
# Session lanes and their handles

`sessions.js`: a lane locks a provider for a work item, the active session of a lane holds the
handle of the provider's conversation, and a lease on the session lets one job resume it and
advance the handle.

* A function that runs in a transaction, or is one statement, is one step.  `acquireSessionHandle`,
  `markSessionStatus` and `expireStaleSessionLeases` are not: what a worker has read is its task,
  and `proceed` is the next statement.
* A lease token is the number of its draw.  The two `CHECK` clauses are the type of a status, the
  two unique indexes are in `insertSessionLane` and `insertJobSession`; a statement that a foreign
  key refuses is no step.
* Events and the counts that are only logged are left out.  `advances` is read by no function of the
  code.
-/
import PosseClient.Lib.Table
import PosseClient.Lib.JsText

namespace PosseClient

open Table

/-! ## 1. The two tables -/

inductive SessionStatus
  | active | invalidated | expired | failed
deriving DecidableEq, Repr

/-- A row of `session_lanes`. -/
structure SessionLane where
  id : ℕ
  workItemId : ℕ
  lane : String
  provider : String
  skillKey : String
  contractFingerprint : String
  status : SessionStatus := .active
  resetGeneration : ℕ := 0
  lockReason : String
  reason : Option String := none
  createdAt : ℤ
  updatedAt : ℤ
  invalidatedAt : Option ℤ := none
deriving DecidableEq, Repr

/-- A row of `job_sessions`. -/
structure JobSession where
  id : ℕ
  laneId : ℕ
  workItemId : ℕ
  lane : String
  provider : String
  skillKey : String
  handle : String
  parentJobId : Option ℕ
  hopCount : ℕ := 0
  status : SessionStatus := .active
  reason : Option String := none
  createdAt : ℤ
  lastUsedAt : ℤ
  expiresAt : Option ℤ
  leasedBy : Option ℕ := none
  leaseToken : Option ℕ := none
  leaseExpiresAt : Option ℤ := none
  lastAgentCallId : Option ℕ
deriving DecidableEq, Repr

/-- The tables, the last ids they gave, and the number of tokens drawn. -/
structure SessionDb where
  lanes : List SessionLane := []
  sessions : List JobSession := []
  laneIds : ℕ := 0
  sessionIds : ℕ := 0
  tokens : ℕ := 0
deriving DecidableEq, Repr

/-- The lane has the key of the unique index `idx_session_lanes_unique_active`. -/
def SessionLane.isActiveAt (row : SessionLane) (workItemId : ℕ) (lane skillKey : String) : Bool :=
  row.workItemId = workItemId && row.lane = lane && row.skillKey = skillKey &&
    row.status = .active

/-- The session has the key of the unique index `idx_job_sessions_unique_active`. -/
def JobSession.isActiveOf (row : JobSession) (laneId : ℕ) : Bool :=
  row.laneId = laneId && row.status = .active

/-- `leased_by = NULL, lease_token = NULL, lease_expires_at = NULL`. -/
def JobSession.clearLease (row : JobSession) : JobSession :=
  { row with leasedBy := none, leaseToken := none, leaseExpiresAt := none }

/-- `INSERT INTO session_lanes`, which fails on a second active row of the key. -/
def SessionDb.insertSessionLane (db : SessionDb) (row : SessionLane) : Option SessionDb :=
  if db.lanes.any (·.isActiveAt row.workItemId row.lane row.skillKey) then none
  else some { db with lanes := db.lanes ++ [row], laneIds := row.id }

/-- `INSERT INTO job_sessions`, which fails on a second active row of the lane. -/
def SessionDb.insertJobSession (db : SessionDb) (row : JobSession) : Option SessionDb :=
  if db.sessions.any (·.isActiveOf row.laneId) then none
  else some { db with sessions := db.sessions ++ [row], sessionIds := row.id }

/-! ## 2. Lanes -/

/-- `normalizeProvider`. -/
def normalizeProvider (toLowerCase : String → String) (value : String) : String :=
  toLowerCase (trim value)

/-- `normalizeContractFingerprint`. -/
def normalizeContractFingerprint (value : String) : String := trim value

/-- `getActiveSessionLane`: `ORDER BY id DESC LIMIT 1`. -/
def SessionDb.getActiveSessionLane (db : SessionDb) (workItemId : ℕ) (lane skillKey : String) :
    Option SessionLane :=
  first (fun a b => b.id < a.id) (select (·.isActiveAt workItemId lane skillKey) db.lanes)

/-- `getActiveSessionForLane`: `ORDER BY last_used_at DESC, id DESC LIMIT 1`. -/
def SessionDb.getActiveSessionForLane (db : SessionDb) (laneId : ℕ) : Option JobSession :=
  first (fun a b => b.lastUsedAt < a.lastUsedAt || (b.lastUsedAt = a.lastUsedAt && b.id < a.id))
    (select (·.isActiveOf laneId) db.sessions)

/-- `invalidateSessionLane`, with the number of lanes it changed. -/
def SessionDb.invalidateSessionLane (db : SessionDb) (laneId : ℕ) (reason : String)
    (status : SessionStatus) (ts : ℤ) : SessionDb × ℕ :=
  let isTarget := fun (row : SessionLane) => decide (row.id = laneId) && row.status = .active
  let count := changes isTarget db.lanes
  if count = 0 then (db, 0)
  else
    ({ db with
        lanes := updateWhere isTarget (fun row => { row with
          status := status, reason := some reason, invalidatedAt := some ts, updatedAt := ts
          resetGeneration := row.resetGeneration + 1 }) db.lanes
        sessions := updateWhere (·.isActiveOf laneId) (fun row => { row.clearLease with
          status := status, reason := some reason, lastUsedAt := ts }) db.sessions }, count)

structure EnsureLaneArgs where
  workItemId : ℕ
  lane : String
  provider : String
  skillKey : String := ""
  contractFingerprint : String := ""
  lockReason : String := "session_recycle"
deriving DecidableEq, Repr

structure EnsureLaneResult where
  lane : SessionLane
  created : Bool
  contractChanged : Bool
  providerLocked : Bool
  lockedProvider : String
deriving DecidableEq, Repr

/-- The result for a lane that is there. -/
def EnsureLaneResult.found (lane : SessionLane) (provider : String) (contractChanged : Bool) :
    EnsureLaneResult where
  lane := lane
  created := false
  contractChanged := contractChanged
  providerLocked := lane.provider ≠ provider
  lockedProvider := lane.provider

/-- A new lane, for a provider and a fingerprint in normal form. -/
def SessionDb.createSessionLane (db : SessionDb) (args : EnsureLaneArgs)
    (provider contractFingerprint : String) (contractChanged : Bool) (ts : ℤ) :
    SessionDb × Except String EnsureLaneResult :=
  let row : SessionLane := {
    id := db.laneIds + 1, workItemId := args.workItemId, lane := args.lane, provider := provider
    skillKey := args.skillKey, contractFingerprint := contractFingerprint
    lockReason := args.lockReason, createdAt := ts, updatedAt := ts }
  match db.insertSessionLane row with
  | some created => (created, .ok ⟨row, true, contractChanged, false, provider⟩)
  | none =>
    match db.getActiveSessionLane args.workItemId args.lane args.skillKey with
    | some raced => (db, .ok (.found raced provider contractChanged))
    | none => (db, .error "SQLITE_CONSTRAINT")

/-- `ensureSessionLane`. -/
def SessionDb.ensureSessionLane (toLowerCase : String → String) (db : SessionDb)
    (args : EnsureLaneArgs) (ts : ℤ) : SessionDb × Except String EnsureLaneResult :=
  let provider := normalizeProvider toLowerCase args.provider
  let contractFingerprint := normalizeContractFingerprint args.contractFingerprint
  if args.lane = "" ∨ provider = "" then
    (db, .error "ensureSessionLane requires workItemId, lane, and provider")
  else
    match db.getActiveSessionLane args.workItemId args.lane args.skillKey with
    | none => db.createSessionLane args provider contractFingerprint false ts
    | some existing =>
      if contractFingerprint ≠ "" ∧
          normalizeContractFingerprint existing.contractFingerprint ≠ contractFingerprint then
        (db.invalidateSessionLane existing.id "contract_changed" .invalidated ts).1.createSessionLane
          args provider contractFingerprint true ts
      else (db, .ok (.found existing provider false))

/-! ## 3. Handles -/

structure RecordHandleArgs where
  laneId : ℕ
  handle : String
  parentJobId : Option ℕ := none
  expiresAt : Option ℤ := none
  lastAgentCallId : Option ℕ := none
deriving DecidableEq, Repr

/-- `recordInitialSessionHandle`. -/
def SessionDb.recordInitialSessionHandle (db : SessionDb) (args : RecordHandleArgs) (ts : ℤ) :
    SessionDb × Except String (Option JobSession) :=
  if args.handle = "" then
    (db, .error "recordInitialSessionHandle requires laneId and handle")
  else
    match lookup (·.id) args.laneId db.lanes with
    | none => (db, .ok none)
    | some lane =>
      if lane.status ≠ .active then (db, .ok none)
      else
        match db.getActiveSessionForLane lane.id with
        | some existing => (db, .ok (some existing))
        | none =>
          -- `INSERT .. SELECT` reads the lane that was just read, in the same transaction
          let row : JobSession := {
            id := db.sessionIds + 1, laneId := lane.id, workItemId := lane.workItemId
            lane := lane.lane, provider := lane.provider, skillKey := lane.skillKey
            handle := args.handle, parentJobId := args.parentJobId, createdAt := ts
            lastUsedAt := ts, expiresAt := args.expiresAt
            lastAgentCallId := args.lastAgentCallId }
          match db.insertJobSession row with
          | some created => (created, .ok (some row))
          | none =>
            match db.getActiveSessionForLane lane.id with
            | some raced => (db, .ok (some raced))
            | none => (db, .error "SQLITE_CONSTRAINT")

/-- `new Date(Date.now() + Math.max(1, Number(leaseTtlSec || 300)) * 1000)`. -/
def leaseEnd (date leaseTtlSec : ℤ) : ℤ :=
  date + max 1 (if leaseTtlSec = 0 then 300 else leaseTtlSec) * 1000

/-- The `EXISTS` clause of the lease: an active lane with the columns of the session. -/
def SessionDb.hasActiveLane (db : SessionDb) (row : JobSession) : Bool :=
  db.lanes.any fun parent =>
    parent.id = row.laneId && parent.status = .active && parent.workItemId = row.workItemId &&
      parent.lane = row.lane && parent.provider = row.provider && parent.skillKey = row.skillKey

/-- The `WHERE` clause of the lease. -/
def SessionDb.isLeasable (db : SessionDb) (sessionId : ℕ) (ts : ℤ) (row : JobSession) : Bool :=
  row.id = sessionId && row.status = .active && row.leaseExpiresAt.all (· < ts) &&
    row.expiresAt.all (ts < ·) && db.hasActiveLane row

/-- The `UPDATE` of `acquireSessionHandle`, with the token it stored. -/
def SessionDb.leaseSessionHandle (db : SessionDb) (sessionId jobId : ℕ) (leaseTtlSec ts date : ℤ) :
    SessionDb × Option ℕ :=
  if changes (db.isLeasable sessionId ts) db.sessions = 0 then
    ({ db with tokens := db.tokens + 1 }, none)
  else
    ({ db with
        tokens := db.tokens + 1
        sessions := updateWhere (db.isLeasable sessionId ts) (fun row => { row with
          leasedBy := some jobId, leaseToken := some db.tokens
          leaseExpiresAt := some (leaseEnd date leaseTtlSec), lastUsedAt := ts }) db.sessions },
      some db.tokens)

/-- `WHERE id = ? AND lease_token = ? AND status = 'active'`. -/
def JobSession.isLeasedWith (row : JobSession) (sessionId : ℕ) (leaseToken : Option ℕ) : Bool :=
  row.id = sessionId && leaseToken.isSome && row.leaseToken = leaseToken && row.status = .active

/-- `releaseSessionHandle`, with the number of sessions it changed. -/
def SessionDb.releaseSessionHandle (db : SessionDb) (sessionId : ℕ) (leaseToken : Option ℕ)
    (ts : ℤ) : SessionDb × ℕ :=
  let isTarget := fun (row : JobSession) => row.isLeasedWith sessionId leaseToken
  ({ db with
      sessions := updateWhere isTarget (fun row => { row.clearLease with lastUsedAt := ts })
        db.sessions },
    changes isTarget db.sessions)

/-- `renewSessionHandleLease`. -/
def SessionDb.renewSessionHandleLease (db : SessionDb) (sessionId : ℕ) (leaseToken : Option ℕ)
    (jobId : Option ℕ) (leaseTtlSec ts date : ℤ) : SessionDb × Bool :=
  let isTarget := fun (row : JobSession) =>
    row.isLeasedWith sessionId leaseToken && jobId.all (row.leasedBy = some ·)
  ({ db with
      sessions := updateWhere isTarget (fun row => { row with
        leaseExpiresAt := some (leaseEnd date leaseTtlSec), lastUsedAt := ts }) db.sessions },
    0 < changes isTarget db.sessions)

structure AdvanceHandleArgs where
  sessionId : ℕ
  leaseToken : Option ℕ
  newHandle : String
  jobId : Option ℕ
  expiresAt : Option ℤ := none
  lastAgentCallId : Option ℕ := none
deriving DecidableEq, Repr

/-- `advanceSessionHandle`. -/
def SessionDb.advanceSessionHandle (db : SessionDb) (args : AdvanceHandleArgs) (ts : ℤ) :
    SessionDb × Option JobSession :=
  let isTarget := fun (row : JobSession) => row.isLeasedWith args.sessionId args.leaseToken
  if changes isTarget db.sessions = 0 then (db, none)
  else
    let advanced := { db with
      sessions := updateWhere isTarget (fun row => { row.clearLease with
        handle := args.newHandle, parentJobId := args.jobId, hopCount := row.hopCount + 1
        lastUsedAt := ts, expiresAt := args.expiresAt.or row.expiresAt
        lastAgentCallId := args.lastAgentCallId.or row.lastAgentCallId }) db.sessions }
    (advanced, lookup (·.id) args.sessionId advanced.sessions)

/-- The `UPDATE` of `markSessionStatus`, with the number of sessions it changed. -/
def SessionDb.setSessionStatus (db : SessionDb) (sessionId : ℕ) (status : SessionStatus)
    (reason : String) (ts : ℤ) : SessionDb × ℕ :=
  let isTarget := fun (row : JobSession) => decide (row.id = sessionId) && row.status = .active
  ({ db with
      sessions := updateWhere isTarget (fun row => { row.clearLease with
        status := status, reason := some reason, lastUsedAt := ts }) db.sessions },
    changes isTarget db.sessions)

/-- The lease is set and over: `lease_expires_at IS NOT NULL AND lease_expires_at < ?`. -/
def JobSession.isStaleAt (row : JobSession) (ts : ℤ) : Bool :=
  row.status = .active && row.leaseExpiresAt.any (· < ts)

/-- The `clearStmt` of `expireStaleSessionLeases`. -/
def SessionDb.clearStaleLease (db : SessionDb) (sessionId : ℕ) (reason : String) (ts : ℤ) :
    SessionDb × ℕ :=
  let isTarget := fun (row : JobSession) => decide (row.id = sessionId) && row.isStaleAt ts
  ({ db with
      sessions := updateWhere isTarget (fun row => { row.clearLease with
        reason := some reason, lastUsedAt := ts }) db.sessions },
    changes isTarget db.sessions)

/-! ## 4. Workers -/

/-- What a worker has read and not acted on yet. -/
inductive SessionTask
  | acquiring (session : JobSession) (jobId : ℕ) (leaseTtlSec : ℤ)
  | marking (sessionId : ℕ) (status : SessionStatus) (reason : String)
  | expiring (rows : List JobSession) (reason : String) (ts : ℤ)
deriving DecidableEq, Repr

structure SessionState where
  db : SessionDb := {}
  tasks : ℕ → Option SessionTask := fun _ => none
  advances : List ℕ := []

/-- The next statement of a task, and what is left of it. -/
def SessionDb.proceed (db : SessionDb) (ts date : ℤ) : SessionTask → SessionDb × Option SessionTask
  | .acquiring session jobId leaseTtlSec =>
    if session.expiresAt.any (· ≤ ts) then
      (db, some (.marking session.id .expired "provider_ttl_elapsed"))
    else ((db.leaseSessionHandle session.id jobId leaseTtlSec ts date).1, none)
  | .marking sessionId status reason => ((db.setSessionStatus sessionId status reason ts).1, none)
  | .expiring [] _ _ => (db, none)
  | .expiring (row :: rows) reason started =>
    ((db.clearStaleLease row.id reason started).1, some (.expiring rows reason started))

inductive SessionOp
  | ensureSessionLane (args : EnsureLaneArgs) (ts : ℤ)
  | invalidateSessionLane (laneId : ℕ) (reason : String) (status : SessionStatus) (ts : ℤ)
  | recordInitialSessionHandle (args : RecordHandleArgs) (ts : ℤ)
  | acquireSessionHandle (worker laneId jobId : ℕ) (leaseTtlSec : ℤ)
  | markSessionStatus (worker sessionId : ℕ) (status : SessionStatus) (reason : String)
  | expireStaleSessionLeases (worker : ℕ) (reason : String) (ts : ℤ)
  | proceed (worker : ℕ) (ts date : ℤ)
  | releaseSessionHandle (sessionId : ℕ) (leaseToken : Option ℕ) (ts : ℤ)
  | renewSessionHandleLease (sessionId : ℕ) (leaseToken : Option ℕ) (jobId : Option ℕ)
      (leaseTtlSec ts date : ℤ)
  | advanceSessionHandle (args : AdvanceHandleArgs) (ts : ℤ)
deriving DecidableEq, Repr

/-- The task of a worker that has none. -/
def SessionState.start (s : SessionState) (worker : ℕ) (task : Option SessionTask) :
    SessionState :=
  if (s.tasks worker).isSome then s
  else { s with tasks := Function.update s.tasks worker task }

/-- One step of the workers. -/
def sessionStep (toLowerCase : String → String) (s : SessionState) : SessionOp → SessionState
  | .ensureSessionLane args ts => { s with db := (s.db.ensureSessionLane toLowerCase args ts).1 }
  | .invalidateSessionLane laneId reason status ts =>
    { s with db := (s.db.invalidateSessionLane laneId reason status ts).1 }
  | .recordInitialSessionHandle args ts =>
    { s with db := (s.db.recordInitialSessionHandle args ts).1 }
  | .acquireSessionHandle worker laneId jobId leaseTtlSec =>
    s.start worker ((s.db.getActiveSessionForLane laneId).map (.acquiring · jobId leaseTtlSec))
  | .markSessionStatus worker sessionId status reason =>
    s.start worker (some (.marking sessionId status reason))
  | .expireStaleSessionLeases worker reason ts =>
    s.start worker (some (.expiring (select (·.isStaleAt ts) s.db.sessions) reason ts))
  | .proceed worker ts date =>
    match s.tasks worker with
    | none => s
    | some task =>
      { s with
        db := (s.db.proceed ts date task).1
        tasks := Function.update s.tasks worker (s.db.proceed ts date task).2 }
  | .releaseSessionHandle sessionId leaseToken ts =>
    { s with db := (s.db.releaseSessionHandle sessionId leaseToken ts).1 }
  | .renewSessionHandleLease sessionId leaseToken jobId leaseTtlSec ts date =>
    { s with db := (s.db.renewSessionHandleLease sessionId leaseToken jobId leaseTtlSec ts date).1 }
  | .advanceSessionHandle args ts =>
    match s.db.advanceSessionHandle args ts with
    | (db, some _) => { s with db := db, advances := s.advances ++ [args.sessionId] }
    | (db, none) => { s with db := db }

end PosseClient
