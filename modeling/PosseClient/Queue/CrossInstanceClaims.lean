/-
# Cross-instance write claims

`syncCrossInstanceClaims` of `cross-instance-claims.js`, for any number of instances.  An instance
is its id; its database holds the mirror of its peers' claims and the claims it has published.  The
refs `refs/posse/claims/<key>` are shared, and a push is a compare-and-swap that takes effect at
some moment after it is sent, answered or not.

* A sync is a process that stops at each push: `SyncRun` is what it still has to do.
* The objects of the repository are payloads under ids that are never used twice.
* SHA-256, the clocks and the configured time to live are parameters.
-/
import PosseClient.Scope.Path
import PosseClient.Queue.HumanGates

namespace PosseClient

/-! ## 1. Payloads, refs and rows -/

/-- `CLAIM_PROTOCOL`. -/
def claimProtocol : String := "posse.shared_trunk_claim.v1"

/-- `CLAIM_REF_PREFIX`. -/
def claimRefPrefix : String := "refs/posse/claims/"

/-- `MAX_CLAIMS_PER_FETCH`. -/
def maxClaimsPerFetch : ℕ := 128

/-- `MAX_LOCAL_CLAIMS`. -/
def maxLocalClaims : ℕ := 128

/-- A payload that could be parsed.  A number is `none` where it is no integer, `expiresAt` where
`Date.parse` has no answer. -/
structure ClaimPayload where
  protocol : String := claimProtocol
  instanceId : String := ""
  wiId : Option ℤ := none
  jobId : Option (Option ℤ) := none
  path : String := ""
  scopeKind : String := ""
  kind : String := "hard"
  expiresAt : Option ℤ := none
  deriving DecidableEq, Repr

/-- An entry of a fetched page; `objectOid` is `none` where it is no object id. -/
structure FetchedRef where
  ref : Option String := none
  claimKey : Option String := none
  objectOid : Option ℕ := none
  deriving DecidableEq, Repr

/-- The entry with the payload of its object. -/
structure RawClaim extends FetchedRef where
  payload : Option ClaimPayload := none
  deriving DecidableEq, Repr

/-- A row of `shared_trunk_peer_claims`. -/
structure PeerClaimRow where
  claimKey : String
  refName : String
  objectOid : ℕ
  instanceId : String
  workItemId : ℤ
  jobId : Option ℤ
  path : String
  scopeKind : LockKind
  expiresAt : ℤ
  observedAt : ℤ
  deriving DecidableEq, Repr

/-- A row of `shared_trunk_local_claims`. -/
structure LocalClaimRow where
  claimKey : String
  objectOid : ℕ
  instanceId : String
  workItemId : ℤ
  jobId : Option ℤ
  path : String
  scopeKind : LockKind
  expiresAt : ℤ
  deriving DecidableEq, Repr

/-- What a fetched page says about a key. -/
structure RemoteClaim where
  claimKey : String
  objectOid : ℕ
  instanceId : String
  deriving DecidableEq, Repr

/-- A claim that the cleanup deletes. -/
structure ExpiredClaim where
  claimKey : String
  objectOid : ℕ
  deriving DecidableEq, Repr

/-- A row of `activeLocks`. -/
structure ActiveLock where
  path : String
  lockKind : String := "file"
  workItemId : Option ℤ := none
  jobId : Option ℤ := none
  deriving DecidableEq, Repr

/-- A claim that the instance wants to publish. -/
structure DesiredClaim where
  claimKey : String
  path : String
  scopeKind : LockKind
  workItemId : ℤ
  jobId : Option ℤ
  expiresAt : ℤ
  payload : ClaimPayload
  deriving DecidableEq, Repr

/-! ## 2. Reading a fetched claim -/

/-- `boundedString`. -/
def boundedString (value : String) (max : ℕ) : Option String :=
  let text := trim value
  if text ≠ "" ∧ utf16Length text ≤ max then some text else none

/-- `s.includes("/../")`. -/
def hasParentStep (cs : List Char) : Bool := cs.tails.any ("/../".toList.isPrefixOf ·)

/-- `normalizePath`, on a POSIX host. -/
def normalizeClaimPath (value : String) : Option String :=
  let slashes := value.toList.map (fun c => if c = '\\' then '/' else c)
  let relative := if ['.', '/'].isPrefixOf slashes then slashes.drop 2 else slashes
  let normalized := trim (String.ofList (dropEndWhile (· = '/') (collapseSlashes relative)))
  let cs := normalized.toList
  let drive := (cs.headD '/').isAlpha ∧ (cs.drop 1).take 2 = [':', '/']
  if normalized = "" ∨ 4096 < utf16Length normalized then none
  else if cs.head? = some '/' ∨ drive then none
  else if normalized = ".." ∨ startsWith normalized "../" ∨ hasParentStep cs then none
  else some normalized

/-- `normalizeScopeKind`. -/
def normalizeScopeKind (value : String) (path : Option String) : Option LockKind :=
  if value = "file" then some .file
  else if value = "root" then some .root
  else if path = some "*" then some .root
  else none

/-- `file` or `root`. -/
def scopeKindText : LockKind → String
  | .file => "file"
  | .root => "root"

/-- `CLAIM_KEY_RE`. -/
def isClaimKey (key : String) : Bool :=
  key.toList.length == 64 && key.toList.all (· ∈ "0123456789abcdef".toList)

/-- `claimRefAndKey`, the key. -/
def FetchedRef.key (raw : FetchedRef) : Option String :=
  let ref := raw.ref.bind (boundedString · 256)
  let explicitKey := raw.claimKey.bind (boundedString · 64)
  let fromRef := ref.bind (fun r =>
    if startsWith r claimRefPrefix then
      some (String.ofList (r.toList.drop claimRefPrefix.toList.length))
    else none)
  match explicitKey.or fromRef with
  | none => none
  | some key =>
    if isClaimKey key = false then none
    else if ref.any (· != claimRefPrefix ++ key) then none
    else some key

/-- `Number.isSafeInteger` of a positive number. -/
def safePositive (n : Option ℤ) : Option ℤ := n.filter (fun n => 0 < n ∧ n < 2 ^ 53)

section Reading

variable (sha256 : String → String)

/-- `sharedTrunkClaimKey`. -/
def sharedTrunkClaimKey (path : String) (scopeKind : String) : Option String :=
  match normalizeClaimPath path with
  | none => none
  | some path =>
    (normalizeScopeKind scopeKind (some path)).map
      (fun kind => sha256 (scopeKindText kind ++ "\x00" ++ path))

/-- The claim of a payload that `claimRefAndKey` and the key of its path agree on: its key, its
object, its path and the kind of its scope. -/
def RawClaim.matched (raw : RawClaim) : Option (String × ℕ × ClaimPayload × String × LockKind) := do
  let key ← raw.key
  let oid ← raw.objectOid
  let payload ← raw.payload
  guard (payload.protocol = claimProtocol ∧ payload.kind = "hard")
  let path ← normalizeClaimPath payload.path
  let kind ← normalizeScopeKind payload.scopeKind (some path)
  guard (sharedTrunkClaimKey sha256 path (scopeKindText kind) = some key)
  some (key, oid, payload, path, kind)

/-- `Math.max(1, Number(ttlMin) || 30) * 60_000`. -/
def claimTtlMs (ttlMin : Option ℕ) : ℤ :=
  (max 1 (if ttlMin.getD 0 = 0 then 30 else ttlMin.getD 0) : ℕ) * 60000

/-- The job of a payload: `null`, or a positive number. -/
def ClaimPayload.job (payload : ClaimPayload) : Option (Option ℤ) :=
  match payload.jobId with
  | none => some none
  | some jobId => (safePositive jobId).map some

/-- `normalizeFetchedClaim`. -/
def normalizeFetchedClaim (raw : RawClaim) (observedAtMs : ℤ) (ttlMin : Option ℕ) :
    Option PeerClaimRow := do
  let (key, oid, payload, path, kind) ← raw.matched sha256
  let instanceId ← boundedString payload.instanceId 160
  guard (path ≠ "*")
  let wiId ← safePositive payload.wiId
  let jobId ← payload.job
  let suppliedExpiryMs ← payload.expiresAt
  guard (observedAtMs < suppliedExpiryMs)
  some
    { claimKey := key
      refName := claimRefPrefix ++ key
      objectOid := oid
      instanceId := instanceId
      workItemId := wiId
      jobId := jobId
      path := path
      scopeKind := kind
      expiresAt := min suppliedExpiryMs (observedAtMs + claimTtlMs ttlMin)
      observedAt := observedAtMs }

/-- `expiredFetchedClaim`. -/
def expiredFetchedClaim (raw : RawClaim) (observedAtMs expiryGraceMs : ℤ) :
    Option ExpiredClaim := do
  let (key, oid, payload, _, _) ← raw.matched sha256
  let expiresAtMs ← payload.expiresAt
  guard (expiresAtMs + expiryGraceMs ≤ observedAtMs)
  some { claimKey := key, objectOid := oid }

/-- `fetchedClaimLease`. -/
def fetchedClaimLease (raw : RawClaim) : Option RemoteClaim := do
  let (key, oid, payload, path, _) ← raw.matched sha256
  let instanceId ← boundedString payload.instanceId 160
  guard (path ≠ "*")
  some { claimKey := key, objectOid := oid, instanceId := instanceId }

/-- `replacePeerClaims`. -/
def replacePeerClaims (mirror rows : List PeerClaimRow) (instanceId : String)
    (completeSnapshot : Bool) (snapshotStartedAt : Option ℤ) (now : ℤ) : List PeerClaimRow :=
  let peerRows := rows.filter (·.instanceId != instanceId)
  let upserted := peerRows.foldl (fun table row =>
    if table.any (·.claimKey == row.claimKey) then
      table.map (fun old => if old.claimKey = row.claimKey then row else old)
    else table ++ [row]) mirror
  let kept :=
    if completeSnapshot = false then upserted
    else match snapshotStartedAt with
      | some started => upserted.filter (fun row => !decide (row.observedAt < started))
      | none => upserted.filter (fun row => peerRows.any (·.claimKey == row.claimKey))
  kept.filter (fun row => !decide (row.expiresAt ≤ now))

/-- The loop of `activeLockClaims`. -/
def activeLockClaimsFrom (instanceId : String) (expiresAt : ℤ) :
    List ActiveLock → List DesiredClaim → List DesiredClaim
  | [], desired => desired
  | raw :: rest, desired =>
    let path := normalizeClaimPath raw.path
    let claim : Option DesiredClaim := do
      guard (path ≠ some "*")
      let scopeKind ← normalizeScopeKind raw.lockKind path
      let path ← path
      let wiId ← safePositive raw.workItemId
      let claimKey ← sharedTrunkClaimKey sha256 path (scopeKindText scopeKind)
      guard (desired.any (·.claimKey == claimKey) = false)
      let jobId := safePositive raw.jobId
      some
        { claimKey := claimKey, path := path, scopeKind := scopeKind, workItemId := wiId,
          jobId := jobId, expiresAt := expiresAt,
          payload :=
            { instanceId := instanceId, wiId := some wiId, jobId := jobId.map some, path := path,
              scopeKind := scopeKindText scopeKind, expiresAt := some expiresAt } }
    match claim with
    | none => activeLockClaimsFrom instanceId expiresAt rest desired
    | some claim =>
      if maxLocalClaims ≤ (desired ++ [claim]).length then desired ++ [claim]
      else activeLockClaimsFrom instanceId expiresAt rest (desired ++ [claim])

/-- `activeLockClaims`; the locks of work items come before those of jobs. -/
def activeLockClaims (activeLocks : List ActiveLock) (instanceId : String) (ttlMin : Option ℕ)
    (nowMs : ℤ) : List DesiredClaim :=
  activeLockClaimsFrom sha256 instanceId (nowMs + claimTtlMs ttlMin) activeLocks []

end Reading

/-! ## 3. The instances and the repository they share -/

/-- What became of a push at the remote. -/
inductive PushOutcome
  | applied (newOid : Option ℕ)
  | refused
  deriving DecidableEq, Repr

/-- A `casPush`; without an expected object it creates, without a payload it deletes. -/
structure ClaimPush where
  instanceId : String := ""
  claimKey : String := ""
  expectedOldOid : Option ℕ := none
  payload : Option ClaimPayload := none
  outcome : Option PushOutcome := none
  deriving DecidableEq, Repr

/-- The three passes of a sync. -/
inductive SyncPhase
  | cleanup (todo : List ExpiredClaim)
  | publish (todo : List DesiredClaim)
  | release (todo : List LocalClaimRow)
  | finished
  deriving DecidableEq, Repr

/-- A sync that runs; `awaiting` is the push it waits for. -/
structure SyncRun where
  owner : String := ""
  completeSnapshot : Bool := false
  observedAtMs : ℤ := 0
  remoteByKey : List RemoteClaim := []
  activeLocks : List ActiveLock := []
  localRows : List LocalClaimRow := []
  desired : List DesiredClaim := []
  renewalFloorMs : ℤ := 0
  phase : SyncPhase := .finished
  awaiting : Option ℕ := none
  deriving DecidableEq, Repr

/-- The refs, the objects, the databases of the instances, the syncs and the pushes. -/
structure ClaimWorld where
  now : ℤ := 0
  refs : String → Option ℕ := fun _ => none
  objects : ℕ → Option ClaimPayload := fun _ => none
  nextOid : ℕ := 0
  mirrors : String → List PeerClaimRow := fun _ => []
  locals : String → List LocalClaimRow := fun _ => []
  runs : ℕ → SyncRun := fun _ => {}
  nextRun : ℕ := 0
  pushes : ℕ → ClaimPush := fun _ => {}
  nextPush : ℕ := 0

/-- The arguments of a sync. -/
structure SyncCall where
  enabled : Bool := true
  claimsEnabled : Bool := true
  instanceId : String
  fetchedClaims : List FetchedRef := []
  claimsTruncated : Bool := false
  claimSnapshotComplete : Option Bool := none
  claimSnapshotStartedAt : Option ℤ := none
  activeLocks : List ActiveLock := []
  deriving DecidableEq, Repr

/-- Write a sync. -/
def ClaimWorld.setRun (w : ClaimWorld) (p : ℕ) (run : SyncRun) : ClaimWorld :=
  { w with runs := Function.update w.runs p run }

/-- Write the claims an instance has published. -/
def ClaimWorld.setLocals (w : ClaimWorld) (instanceId : String) (rows : List LocalClaimRow) :
    ClaimWorld :=
  { w with locals := Function.update w.locals instanceId rows }

/-- `deleteLocalClaim`. -/
def ClaimWorld.deleteLocalClaim (w : ClaimWorld) (instanceId claimKey : String) : ClaimWorld :=
  w.setLocals instanceId ((w.locals instanceId).filter (·.claimKey != claimKey))

/-- `upsertLocalClaim`. -/
def ClaimWorld.upsertLocalClaim (w : ClaimWorld) (instanceId : String) (claim : DesiredClaim)
    (objectOid : ℕ) : ClaimWorld :=
  let row : LocalClaimRow :=
    { claimKey := claim.claimKey, objectOid := objectOid, instanceId := instanceId,
      workItemId := claim.workItemId, jobId := claim.jobId, path := claim.path,
      scopeKind := claim.scopeKind, expiresAt := claim.expiresAt }
  w.setLocals instanceId ((w.locals instanceId).filter (·.claimKey != claim.claimKey) ++ [row])

/-- A sync sends a push and waits for its answer. -/
def ClaimWorld.send (w : ClaimWorld) (p : ℕ) (claimKey : String) (expectedOldOid : Option ℕ)
    (payload : Option ClaimPayload) : ClaimWorld :=
  let run := w.runs p
  { w.setRun p { run with awaiting := some w.nextPush } with
    pushes := Function.update w.pushes w.nextPush
      { instanceId := run.owner, claimKey := claimKey, expectedOldOid := expectedOldOid,
        payload := payload }
    nextPush := w.nextPush + 1 }

/-! ## 4. A sync -/

section Sync

variable (sha256 : String → String) (clock : String → ℤ → ℤ) (claimsTtlMin : String → Option ℕ)

/-- Where the clock has gone backwards since the snapshot began, the time of the mirror is moved; the
expiry is not. -/
def clampObserved (rows : List PeerClaimRow) (observedAtMs : ℤ) (snapshotStartedAt : Option ℤ) :
    List PeerClaimRow :=
  match snapshotStartedAt with
  | some started =>
    if observedAtMs < started then rows.map (fun row => { row with observedAt := started }) else rows
  | none => rows

/-- `syncCrossInstanceClaims` up to its first pass. -/
def ClaimWorld.startSync (w : ClaimWorld) (call : SyncCall) : ClaimWorld :=
  if call.enabled = false ∨ call.claimsEnabled = false then w
  else match boundedString call.instanceId 160 with
  | none => w
  | some owner =>
    let observedAtMs := clock owner w.now
    let ttlMin := claimsTtlMin owner
    let boundedFetched : List RawClaim := (call.fetchedClaims.take maxClaimsPerFetch).map
      (fun raw => { raw with payload := raw.objectOid.bind w.objects })
    let fetchedRows := boundedFetched.filterMap
      (fun raw => normalizeFetchedClaim sha256 raw observedAtMs ttlMin)
    let normalized := clampObserved fetchedRows observedAtMs call.claimSnapshotStartedAt
    let completeSnapshot := call.claimSnapshotComplete.getD (!call.claimsTruncated)
    let mirror := replacePeerClaims (w.mirrors owner) normalized owner completeSnapshot
      call.claimSnapshotStartedAt (clock owner w.now)
    let leases := boundedFetched.filterMap (fetchedClaimLease sha256)
    let remoteRows := normalized.map
      (fun row => ({ claimKey := row.claimKey, objectOid := row.objectOid,
                     instanceId := row.instanceId } : RemoteClaim))
    let expired := boundedFetched.filterMap
      (fun raw => expiredFetchedClaim sha256 raw observedAtMs (claimTtlMs ttlMin))
    { w with
      mirrors := Function.update w.mirrors owner mirror
      runs := Function.update w.runs w.nextRun
        { owner := owner, completeSnapshot := completeSnapshot, observedAtMs := observedAtMs,
          remoteByKey := leases ++ remoteRows, activeLocks := call.activeLocks,
          phase := .cleanup expired }
      nextRun := w.nextRun + 1 }

/-- `remoteByKey.get`: the last one that was set. -/
def SyncRun.remoteFor (run : SyncRun) (claimKey : String) : Option RemoteClaim :=
  (run.remoteByKey.filter (·.claimKey == claimKey)).getLast?

/-- The peer that the durable mirror knows for a key. -/
def ClaimWorld.mirroredRemote (w : ClaimWorld) (run : SyncRun) (claimKey : String) :
    Option RemoteClaim :=
  ((w.mirrors run.owner).find?
    (fun row => row.claimKey == claimKey && decide (run.observedAtMs < row.expiresAt))).map
    (fun row => { claimKey := row.claimKey, objectOid := row.objectOid,
                  instanceId := row.instanceId })

/-- The second pass begins. -/
def ClaimWorld.beginPublish (w : ClaimWorld) (p : ℕ) : ClaimWorld :=
  let run := w.runs p
  let now := clock run.owner w.now
  let desired := activeLockClaims sha256 run.activeLocks run.owner (claimsTtlMin run.owner) now
  w.setRun p
    { run with
      localRows := w.locals run.owner
      desired := desired
      renewalFloorMs := now + claimTtlMs (claimsTtlMin run.owner) / 2
      phase := .publish desired }

/-- The second pass goes on with the claims that are left. -/
def ClaimWorld.publishNext (w : ClaimWorld) (p : ℕ) (rest : List DesiredClaim) : ClaimWorld :=
  w.setRun p { w.runs p with phase := .publish rest, awaiting := none }

/-- One pass of the loop of the second pass, up to its push. -/
def ClaimWorld.publishClaim (w : ClaimWorld) (p : ℕ) (claim : DesiredClaim)
    (rest : List DesiredClaim) : ClaimWorld :=
  let run := w.runs p
  let fetchedRemote := run.remoteFor claim.claimKey
  let remote := fetchedRemote.or (w.mirroredRemote run claim.claimKey)
  let localRow := run.localRows.find? (·.claimKey == claim.claimKey)
  if remote.any (·.instanceId != run.owner) then
    (if localRow.isSome then w.deleteLocalClaim run.owner claim.claimKey else w).publishNext p rest
  -- a page is no proof of absence
  else if run.completeSnapshot = false ∧ fetchedRemote = none then w.publishNext p rest
  else if remote.isSome ∧ localRow.any (fun row =>
      remote.any (·.objectOid == row.objectOid) && decide (run.renewalFloorMs < row.expiresAt)) then
    w.publishNext p rest
  else
    w.send p claim.claimKey
      ((remote.map RemoteClaim.objectOid).or (localRow.map LocalClaimRow.objectOid))
      (some claim.payload)

/-- One pass of the loop of the third pass, up to its push. -/
def ClaimWorld.releaseClaim (w : ClaimWorld) (p : ℕ) (row : LocalClaimRow)
    (rest : List LocalClaimRow) : ClaimWorld :=
  let run := w.runs p
  if run.desired.any (·.claimKey == row.claimKey) then
    w.setRun p { run with phase := .release rest }
  else if (run.remoteFor row.claimKey).any (fun remote =>
      remote.instanceId != run.owner || remote.objectOid != row.objectOid) then
    (w.deleteLocalClaim run.owner row.claimKey).setRun p { run with phase := .release rest }
  else w.send p row.claimKey (some row.objectOid) none

/-- A sync goes on to its next push; `aborted` is `signal.aborted` there. -/
def ClaimWorld.advance (w : ClaimWorld) (p : ℕ) (aborted : Bool) : ClaimWorld :=
  let run := w.runs p
  if w.nextRun ≤ p ∨ run.awaiting ≠ none then w
  else match run.phase with
  | .cleanup [] => w.beginPublish sha256 clock claimsTtlMin p
  | .cleanup (expired :: _) =>
    if aborted then w.beginPublish sha256 clock claimsTtlMin p
    else w.send p expired.claimKey (some expired.objectOid) none
  | .publish [] => w.setRun p { run with phase := .release run.localRows }
  | .publish (claim :: rest) =>
    if aborted then w.setRun p { run with phase := .release run.localRows }
    else w.publishClaim p claim rest
  | .release [] => w.setRun p { run with phase := .finished }
  | .release (row :: rest) =>
    if aborted then w.setRun p { run with phase := .finished } else w.releaseClaim p row rest
  | .finished => w

end Sync

/-- A push has its outcome. -/
def ClaimPush.settle (push : ClaimPush) (outcome : PushOutcome) : ClaimPush :=
  { push with outcome := some outcome }

/-- The push takes effect at the remote, or is refused there: an atomic compare-and-swap. -/
def ClaimWorld.arrive (w : ClaimWorld) (k : ℕ) : ClaimWorld :=
  let push := w.pushes k
  if w.nextPush ≤ k ∨ push.outcome ≠ none then w
  else if w.refs push.claimKey ≠ push.expectedOldOid then
    { w with pushes := Function.update w.pushes k (push.settle .refused) }
  else match push.payload with
  | none =>
    { w with
      refs := Function.update w.refs push.claimKey none
      pushes := Function.update w.pushes k (push.settle (.applied none)) }
  | some payload =>
    { w with
      refs := Function.update w.refs push.claimKey (some w.nextOid)
      objects := Function.update w.objects w.nextOid (some payload)
      nextOid := w.nextOid + 1
      pushes := Function.update w.pushes k (push.settle (.applied (some w.nextOid))) }

/-- What `casPush` answers; `failed` is an error, a timeout or an unknown status, whatever became
of the push. -/
inductive PushReport
  | applied | lostRace | failed
  deriving DecidableEq, Repr

/-- The push was answered so: it was applied, or it was refused. -/
def ClaimPush.answers (push : ClaimPush) : PushReport → Bool
  | .applied => match push.outcome with
    | some (.applied _) => true
    | _ => false
  | .lostRace => push.outcome == some .refused
  | .failed => true

/-- The object a push has created. -/
def ClaimPush.newOid (push : ClaimPush) : Option ℕ :=
  match push.outcome with
  | some (.applied newOid) => newOid
  | _ => none

/-- The answer of a push arrives at the sync that waits for it. -/
def ClaimWorld.answer (w : ClaimWorld) (p : ℕ) (report : PushReport) : ClaimWorld :=
  let run := w.runs p
  match run.awaiting with
  | none => w
  | some k =>
    let push := w.pushes k
    if w.nextRun ≤ p ∨ push.answers report = false then w
    else match run.phase with
    | .cleanup (expired :: rest) =>
      let next := w.setRun p { run with phase := .cleanup rest, awaiting := none }
      if report = .applied ∧ (w.locals run.owner).any (fun row =>
          row.claimKey == expired.claimKey && row.objectOid == expired.objectOid) then
        next.deleteLocalClaim run.owner expired.claimKey
      else next
    | .publish (claim :: rest) =>
      let next := w.publishNext p rest
      match report with
      | .failed => next
      | .lostRace =>
        if run.localRows.any (·.claimKey == claim.claimKey) then
          next.deleteLocalClaim run.owner claim.claimKey
        else next
      | .applied =>
        match push.newOid with
        | none => next
        | some objectOid => next.upsertLocalClaim run.owner claim objectOid
    | .release (row :: rest) =>
      let next := w.setRun p { run with phase := .release rest, awaiting := none }
      if report = .failed then next else next.deleteLocalClaim run.owner row.claimKey
    | _ => w

/-! ## 5. Events -/

/-- Another writer of the repository sets or deletes a ref; `none` in `payload` is an object that
cannot be parsed. -/
def ClaimWorld.foreignWrite (w : ClaimWorld) (claimKey : String)
    (payload : Option (Option ClaimPayload)) : ClaimWorld :=
  match payload with
  | none => { w with refs := Function.update w.refs claimKey none }
  | some object =>
    { w with
      refs := Function.update w.refs claimKey (some w.nextOid)
      objects := Function.update w.objects w.nextOid object
      nextOid := w.nextOid + 1 }

/-- What may happen next. -/
inductive ClaimEvent
  | tick (ms : ℕ)
  | foreignWrite (claimKey : String) (payload : Option (Option ClaimPayload))
  | startSync (call : SyncCall)
  | advance (run : ℕ) (aborted : Bool)
  | arrive (push : ℕ)
  | answer (run : ℕ) (report : PushReport)
  deriving DecidableEq, Repr

/-- The world after an event. -/
def claimStep (sha256 : String → String) (clock : String → ℤ → ℤ)
    (claimsTtlMin : String → Option ℕ) (w : ClaimWorld) (event : ClaimEvent) : ClaimWorld :=
  match event with
  | .tick ms => { w with now := w.now + ms }
  | .foreignWrite claimKey payload => w.foreignWrite claimKey payload
  | .startSync call => w.startSync sha256 clock claimsTtlMin call
  | .advance p aborted => w.advance sha256 clock claimsTtlMin p aborted
  | .arrive k => w.arrive k
  | .answer p report => w.answer p report

end PosseClient
