/-
# Waiting-lane preparations

`waiting-lane-preparations.js`.  One row for each work item that waits for its first worktree:
which generation of the target branch it should be prepared at (`desired`), which one it has been
prepared at (`applied`), and how far the preparation is.  Every write goes through one
compare-and-swap on the row's version (`updatePreparationCas`).

* A generation is what `normalizeWaitingLaneGeneration` makes of the value a caller passes or of
  the columns of a row; a value that is not one is `none`.
* The eligibility of the work item and the normal form of hot paths are computed elsewhere and are
  arguments here; jobs are read from the queue tables at that moment.
-/
import PosseClient.Queue.HumanGates

namespace PosseClient

/-! ## 1. Generations -/

/-- A field of a value of unknown shape: absent, of another type, or of the type asked for. -/
inductive RawField (α : Type)
  | missing | malformed
  | value (a : α)
  deriving DecidableEq, Repr

/-- A value a caller passes as a generation. -/
structure RawGeneration where
  targetBranch : RawField String
  gitOid : RawField String
  atlasLedgerSeq : RawField ℤ
  atlasLayerRevision : RawField ℤ
  atlasLayerRowCount : RawField ℤ := .missing
  viewFingerprint : RawField String
  deriving DecidableEq, Repr

/-- `WaitingLaneGeneration`, normalized. -/
structure Generation where
  targetBranch : String
  gitOid : String
  atlasLedgerSeq : ℤ
  atlasLayerRevision : ℤ
  atlasLayerRowCount : Option ℤ := none
  viewFingerprint : String
  deriving DecidableEq, Repr

/-- `/[0-9a-f]/i`. -/
def hexDigits : List Char := "0123456789abcdefABCDEF".toList

/-- `/^[0-9a-f]{40,64}$/i`. -/
def isGitOid (s : String) : Bool :=
  s.toList.all (· ∈ hexDigits) && 40 ≤ s.toList.length && s.toList.length ≤ 64

/-- `toLowerCase`. -/
def lower (s : String) : String := String.ofList (s.toList.map Char.toLower)

/-- `Number.isSafeInteger(n) && n >= 0`. -/
def isCounter (n : ℤ) : Bool := 0 ≤ n && n ≤ 9007199254740991

/-- The row count of a value, if it is absent or a counter. -/
def rowCountOf : RawField ℤ → Option (Option ℤ)
  | .missing => some none
  | .malformed => none
  | .value n => if isCounter n then some (some n) else none

/-- `normalizeWaitingLaneGeneration`. -/
def normalizeWaitingLaneGeneration (value : RawGeneration) : Option Generation :=
  match value.targetBranch, value.gitOid, value.atlasLedgerSeq, value.atlasLayerRevision,
    rowCountOf value.atlasLayerRowCount, value.viewFingerprint with
  | .value branch, .value oid, .value seq, .value revision, some rowCount, .value fingerprint =>
    if trim branch ≠ "" ∧ isGitOid (trim oid) ∧ isCounter seq ∧ isCounter revision ∧
        trim fingerprint ≠ "" then
      some
        { targetBranch := trim branch, gitOid := lower (trim oid), atlasLedgerSeq := seq,
          atlasLayerRevision := revision, atlasLayerRowCount := rowCount,
          viewFingerprint := trim fingerprint }
    else none
  | _, _, _, _, _, _ => none

/-- `compareWaitingLaneGenerations` is positive: the incoming generation is newer. -/
def isNewerGeneration (current : Option Generation) (incoming : Generation) : Bool :=
  match current with
  | none => true
  | some current => current != incoming && current.targetBranch == incoming.targetBranch &&
      current.atlasLedgerSeq ≤ incoming.atlasLedgerSeq &&
      current.atlasLayerRevision ≤ incoming.atlasLayerRevision

/-! ## 2. Rows -/

/-- `WAITING_LANE_STATES`. -/
inductive LaneState
  | requested | preparingGit | waitingAtlas | ready | stale | activating | active | poisoned
  | retired
  deriving DecidableEq, Repr

/-- `WAITING_LANE_PREPARATORY_STATES`. -/
def waitingLanePreparatoryStates : List LaneState :=
  [.requested, .preparingGit, .waitingAtlas, .ready, .stale]

/-- `WAITING_LANE_TERMINAL_STATES`. -/
def waitingLaneTerminalStates : List LaneState := [.poisoned, .retired]

/-- `WAITING_LANE_DEMAND_REASONS`. -/
inductive DemandReason
  | research | planner | dev | operator
  deriving DecidableEq, Repr

/-- `DEMAND_PRIORITY`. -/
def demandPriority : DemandReason → ℕ
  | .research => 0
  | .planner => 1
  | .dev => 2
  | .operator => 3

/-- The five columns of a generation in a row. -/
structure Coordinates where
  gitOid : Option String := none
  atlasSeq : Option ℤ := none
  atlasLayerRevision : Option ℤ := none
  atlasLayerRowCount : Option ℤ := none
  viewFingerprint : Option String := none
  deriving DecidableEq, Repr

/-- `generationChanges`. -/
def Generation.coordinates (generation : Generation) : Coordinates :=
  { gitOid := some generation.gitOid
    atlasSeq := some generation.atlasLedgerSeq
    atlasLayerRevision := some generation.atlasLayerRevision
    atlasLayerRowCount := generation.atlasLayerRowCount
    viewFingerprint := some generation.viewFingerprint }

/-- A row of `waiting_lane_preparations`. -/
structure Preparation where
  workItemId : ℕ
  state : LaneState := .requested
  version : ℕ := 1
  demandReason : DemandReason
  targetBranch : String
  worktreeRoot : Option String := none
  projectCwd : Option String := none
  ownershipRecordId : Option String := none
  desired : Coordinates := {}
  applied : Coordinates := {}
  gitJobId : Option ℕ := none
  atlasJobId : Option ℕ := none
  successorNeeded : Bool := false
  hotPaths : List String := []
  poisonedReason : Option String := none
  deriving DecidableEq, Repr

/-- A column as a field of a value. -/
def RawField.ofColumn {α : Type} : Option α → RawField α
  | none => .missing
  | some a => .value a

/-- `generationFromPreparation`. -/
def Preparation.generation (row : Preparation) (columns : Coordinates) : Option Generation :=
  normalizeWaitingLaneGeneration
    { targetBranch := .value row.targetBranch
      gitOid := .ofColumn columns.gitOid
      atlasLedgerSeq := .ofColumn columns.atlasSeq
      atlasLayerRevision := .ofColumn columns.atlasLayerRevision
      atlasLayerRowCount := .ofColumn columns.atlasLayerRowCount
      viewFingerprint := .ofColumn columns.viewFingerprint }

/-- The table. -/
abbrev Lanes := List Preparation

/-- `selectPreparation`. -/
def selectPreparation (lanes : Lanes) (workItemId : ℕ) : Option Preparation :=
  Table.lookup Preparation.workItemId workItemId lanes

/-- `WAITING_LANE_TRANSITION_OUTCOMES`. -/
inductive LaneOutcome
  | requestedNew | coalescedQueued | promoted | runningSuccessorMarked | alreadyCurrent
  | activationClaimed | retired | poisoned | versionConflict | ineligible
  deriving DecidableEq, Repr

/-- `transitionResult`, without the row. -/
structure LaneResult where
  outcome : LaneOutcome
  reason : Option String := none
  deriving DecidableEq, Repr

/-- An answer that changes nothing. -/
def keepLanes (lanes : Lanes) (outcome : LaneOutcome) (reason : Option String := none) :
    Lanes × LaneResult := (lanes, ⟨outcome, reason⟩)

/-- The `WHERE` clause of `updatePreparationCas`. -/
def isVersionOf (row r : Preparation) : Bool :=
  r.workItemId == row.workItemId && r.version == row.version

/-- `updatePreparationCas`, with the outcome of the transition it makes. -/
def updatePreparationCas (lanes : Lanes) (row : Preparation) (changes : Preparation → Preparation)
    (outcome : LaneOutcome) : Lanes × LaneResult :=
  if Table.changes (isVersionOf row) lanes = 0 then keepLanes lanes .versionConflict
  else (Table.updateWhere (isVersionOf row)
    (fun r => { changes r with version := r.version + 1 }) lanes, ⟨outcome, none⟩)

/-- `normalizeOptionalString`. -/
def normalizeOptionalString (value : Option String) : Option String :=
  (value.map trim).filter (· != "")

/-- `normalizedTerminalReason`. -/
def normalizedTerminalReason (reason : Option String) (fallback : String) : String :=
  String.ofList (((normalizeOptionalString reason).getD fallback).toList.take 1000)

/-- `normalizeExpectedVersion`. -/
def normalizeExpectedVersion (value : Option ℤ) : Option ℕ :=
  (value.filter (fun n => 0 < n && isCounter n)).map Int.toNat

/-- `casRow`: the row, if the caller knows its version. -/
def casRow (lanes : Lanes) (workItemId : ℕ) (expectedVersion : Option ℤ) : Option Preparation :=
  (selectPreparation lanes workItemId).filter
    (fun row => normalizeExpectedVersion expectedVersion == some row.version)

/-- `jobBelongsToPreparation`. -/
def jobBelongsToPreparation (db : Db) (jobId workItemId : ℕ) (jobType : JobType) : Bool :=
  0 < jobId && (db.getJob jobId).any
    (fun job => job.workItemId == some workItemId && job.jobType == jobType)

/-! ## 3. Requests -/

/-- The arguments of `ensureWaitingLanePreparation`; `ineligible` is the reason
`evaluateWaitingLaneEligibility` gives, if any. -/
structure LaneRequest where
  workItemId : ℕ
  demandReason : Option DemandReason
  targetBranch : Option String
  generation : Option RawGeneration := none
  worktreeRoot : Option String := none
  projectCwd : Option String := none
  ownershipRecordId : Option String := none
  hotPaths : Option (List String) := none
  ineligible : Option String := none
  deriving DecidableEq, Repr

/-- The row of a new request. -/
def newPreparation (request : LaneRequest) (reason : DemandReason) (target : String)
    (generation : Option Generation) : Preparation :=
  { workItemId := request.workItemId
    demandReason := reason
    targetBranch := target
    worktreeRoot := normalizeOptionalString request.worktreeRoot
    projectCwd := normalizeOptionalString request.projectCwd
    ownershipRecordId := normalizeOptionalString request.ownershipRecordId
    desired := (generation.map Generation.coordinates).getD {}
    hotPaths := request.hotPaths.getD [] }

/-- A value contradicts the column it would fill. -/
def contradicts (column value : Option String) : Bool :=
  (normalizeOptionalString value).any (fun v => column.any (· != v))

/-- The preparation of this row is running. -/
def Preparation.isRunning (row : Preparation) : Bool :=
  row.state ∈ [LaneState.preparingGit, .waitingAtlas]

/-- The changes of a newer desired generation: a running preparation gets a successor, a finished
one is stale. -/
def Preparation.desire (row : Preparation) (generation : Generation) : Preparation :=
  { row with
    desired := generation.coordinates
    successorNeeded := row.isRunning || row.successorNeeded
    state := if row.state = .ready then .stale else row.state }

/-- The changes of `ensureWaitingLanePreparation` to an existing row. -/
def Preparation.coalesce (row : Preparation) (request : LaneRequest) (promoted : Bool)
    (reason : DemandReason) (newer : Option Generation) : Preparation :=
  let filled := { row with
    demandReason := if promoted then reason else row.demandReason
    worktreeRoot := row.worktreeRoot.or (normalizeOptionalString request.worktreeRoot)
    projectCwd := row.projectCwd.or (normalizeOptionalString request.projectCwd)
    ownershipRecordId := row.ownershipRecordId.or (normalizeOptionalString request.ownershipRecordId)
    hotPaths := request.hotPaths.getD row.hotPaths }
  match newer with
  | none => filled
  | some generation => filled.desire generation

/-- The outcome of a request that meets an existing row. -/
def coalesceOutcome (row : Preparation) (promoted : Bool) (newer : Option Generation) :
    LaneOutcome :=
  if newer.isSome then
    if row.isRunning then .runningSuccessorMarked
    else if row.state = .ready ∨ promoted then .promoted else .coalescedQueued
  else if promoted then .promoted
  else if row.isRunning ∨ (row.state = .ready ∧ (row.generation row.applied).isSome ∧
      row.generation row.applied = row.generation row.desired) then .alreadyCurrent
  else .coalescedQueued

/-- `ensureWaitingLanePreparation` on an existing row. -/
def coalescePreparation (lanes : Lanes) (row : Preparation) (request : LaneRequest)
    (reason : DemandReason) (target : String) (generation : Option Generation) :
    Lanes × LaneResult :=
  if row.state = .poisoned then keepLanes lanes .poisoned
  else if row.state = .retired then keepLanes lanes .retired
  else if row.state = .activating ∨ row.state = .active then keepLanes lanes .alreadyCurrent
  else if row.targetBranch ≠ target then keepLanes lanes .ineligible "target_branch_mismatch"
  else if contradicts row.worktreeRoot request.worktreeRoot ∨
      contradicts row.projectCwd request.projectCwd ∨
      contradicts row.ownershipRecordId request.ownershipRecordId then
    keepLanes lanes .ineligible "ownership_mismatch"
  else
    let promoted : Bool := demandPriority row.demandReason < demandPriority reason
    let newer := generation.filter (isNewerGeneration (row.generation row.desired))
    let outcome := coalesceOutcome row promoted newer
    if row.coalesce request promoted reason newer = row then keepLanes lanes outcome
    else updatePreparationCas lanes row
      (fun r => r.coalesce request promoted reason newer) outcome

/-- `ensureWaitingLanePreparation`. -/
def ensureWaitingLanePreparation (lanes : Lanes) (request : LaneRequest) : Lanes × LaneResult :=
  let generation := request.generation.bind normalizeWaitingLaneGeneration
  match request.demandReason, normalizeOptionalString request.targetBranch with
  | some reason, some target =>
    if request.workItemId = 0 ∨ (request.generation.isSome ∧ generation.isNone) ∨
        generation.any (fun g => g.targetBranch != target) then
      keepLanes lanes .ineligible "invalid_request"
    else match request.ineligible with
      | some why => keepLanes lanes .ineligible why
      | none =>
        match selectPreparation lanes request.workItemId with
        | none => (lanes ++ [newPreparation request reason target generation], ⟨.requestedNew, none⟩)
        | some row => coalescePreparation lanes row request reason target generation
  | _, _ => keepLanes lanes .ineligible "invalid_request"

/-! ## 4. Preparation -/

/-- `claimWaitingLaneGitPreparation`. -/
def claimWaitingLaneGitPreparation (db : Db) (lanes : Lanes) (workItemId : ℕ)
    (expectedVersion : Option ℤ) (gitJobId : ℕ) : Lanes × LaneResult :=
  match casRow lanes workItemId expectedVersion with
  | none => keepLanes lanes .versionConflict
  | some row =>
    if jobBelongsToPreparation db gitJobId workItemId .waitingLanePrepare = false then
      keepLanes lanes .ineligible "invalid_git_job"
    else if row.state = .preparingGit ∧ row.gitJobId = some gitJobId then
      keepLanes lanes .alreadyCurrent
    else if row.state ∉ [LaneState.requested, .stale] ∨ (row.generation row.desired).isNone then
      keepLanes lanes .ineligible "state_not_claimable"
    else updatePreparationCas lanes row (fun r => { r with
      state := .preparingGit, gitJobId := some gitJobId, atlasJobId := none,
      successorNeeded := false }) .promoted

/-- What Git prepared, as its job reports it. -/
structure GitPrepared where
  gitJobId : Option ℕ
  appliedGitOid : Option String
  worktreeRoot : Option String
  projectCwd : Option String
  ownershipRecordId : Option String
  atlasJobId : Option ℕ := none
  deriving DecidableEq, Repr

/-- A column that takes a required value, unless it contradicts it. -/
def refusesOwner (column value : Option String) : Bool :=
  (normalizeOptionalString value).isNone || contradicts column value

/-- `recordWaitingLaneGitPrepared`. -/
def recordWaitingLaneGitPrepared (db : Db) (lanes : Lanes) (workItemId : ℕ)
    (expectedVersion : Option ℤ) (prepared : GitPrepared) : Lanes × LaneResult :=
  match casRow lanes workItemId expectedVersion with
  | none => keepLanes lanes .versionConflict
  | some row =>
    let appliedOid := (normalizeOptionalString prepared.appliedGitOid).map lower
    if row.state ≠ .preparingGit ∨ row.gitJobId ≠ prepared.gitJobId ∨ appliedOid.isNone ∨
        appliedOid ≠ some (lower (row.desired.gitOid.getD "")) ∨
        prepared.atlasJobId.any (fun id => !jobBelongsToPreparation db id workItemId .atlasWarm)
    then keepLanes lanes .ineligible "git_preparation_mismatch"
    else if refusesOwner row.worktreeRoot prepared.worktreeRoot ∨
        refusesOwner row.projectCwd prepared.projectCwd ∨
        refusesOwner row.ownershipRecordId prepared.ownershipRecordId then
      keepLanes lanes .ineligible "ownership_mismatch"
    else updatePreparationCas lanes row (fun r => { r with
      worktreeRoot := r.worktreeRoot.or (normalizeOptionalString prepared.worktreeRoot)
      projectCwd := r.projectCwd.or (normalizeOptionalString prepared.projectCwd)
      ownershipRecordId :=
        r.ownershipRecordId.or (normalizeOptionalString prepared.ownershipRecordId)
      state := .waitingAtlas
      -- the proof of Git is recorded before the one of Atlas, which is not known yet
      applied := { gitOid := appliedOid }
      atlasJobId := prepared.atlasJobId }) .promoted

/-- The `result` of an Atlas job. -/
inductive AtlasResult
  | flag (value : Bool)
  | text (value : String)
  | object (ok : Bool) (status outcome result waitingLaneOutcome : Option String)
  | other
  deriving DecidableEq, Repr

/-- The words `isSuccessfulAtlasResult` takes for a success. -/
def atlasSuccessWords : List String :=
  ["success", "succeeded", "ready", "applied", "tail_applied", "cloned", "snapshot", "caught_up",
    "already_current", "prefetched"]

/-- `value.trim().toLowerCase()`. -/
def word (value : String) : String := lower (trim value)

/-- `isSuccessfulAtlasResult`. -/
def isSuccessfulAtlasResult : AtlasResult → Bool
  | .flag value => value
  | .text value => word value ∈ atlasSuccessWords
  | .object ok status outcome result laneOutcome =>
    laneOutcome.all (fun w => word w ∉ ["needs_reprepare", "needs_latest", "superseded"]) &&
      (ok || [status, outcome, result, laneOutcome].any
        (fun value => value.any (fun w => word w ∈ atlasSuccessWords)))
  | .other => false

/-- `explicitStaleOutcome` is one of the two. -/
def isExplicitlyStale : AtlasResult → Bool
  | .object _ _ _ _ laneOutcome => word (laneOutcome.getD "") ∈ ["superseded", "needs_latest"]
  | _ => false

/-- The `detail` of a settlement that retires the row. -/
def atlasDetail : AtlasResult → String
  | .object _ status _ _ laneOutcome =>
    (((laneOutcome.filter (· != "")).or (status.filter (· != ""))).getD
      "invalid_or_missing_generation")
  | .text value => if value = "" then "invalid_or_missing_generation" else value
  | _ => "invalid_or_missing_generation"

/-- The changes of `settleWaitingLaneAtlas`. -/
def Preparation.settleAtlas (row : Preparation) (actual : Option Generation)
    (result : AtlasResult) : Preparation :=
  let desired := row.generation row.desired
  let succeeded := isSuccessfulAtlasResult result
  let retire := { row with
    state := .retired, successorNeeded := false
    poisonedReason := some (normalizedTerminalReason (some ("atlas_" ++ atlasDetail result))
      "atlas_settlement_failed") }
  match actual with
  | none => retire
  | some generation =>
    if succeeded ∧ desired = some generation ∧
        generation.gitOid = lower (row.applied.gitOid.getD "") then
      { row with
        applied := generation.coordinates, state := .ready, successorNeeded := false }
    else if desired.any (fun d => generation.targetBranch == d.targetBranch && generation != d) ∧
        (succeeded ∨ isExplicitlyStale result) then
      { row with state := .stale, successorNeeded := true }
    else retire

/-- `settleWaitingLaneAtlas`. -/
def settleWaitingLaneAtlas (lanes : Lanes) (workItemId : ℕ) (expectedVersion : Option ℤ)
    (atlasJobId : Option ℕ) (actualGeneration : Option RawGeneration) (result : AtlasResult) :
    Lanes × LaneResult :=
  match casRow lanes workItemId expectedVersion with
  | none => keepLanes lanes .versionConflict
  | some row =>
    if row.state = .ready ∧ row.atlasJobId = atlasJobId then keepLanes lanes .alreadyCurrent
    else if row.state ≠ .waitingAtlas ∨ row.atlasJobId ≠ atlasJobId then
      keepLanes lanes .ineligible "atlas_job_mismatch"
    else updatePreparationCas lanes row
      (fun r => r.settleAtlas (actualGeneration.bind normalizeWaitingLaneGeneration) result)
      .promoted

/-- The rows `advanceWaitingLaneDesiredGeneration` selects: live preparations, and reservations of
the planner. -/
def isAdvanced (generation : Generation) (row : Preparation) : Bool :=
  row.targetBranch == generation.targetBranch &&
    (decide (row.state ∈ waitingLanePreparatoryStates) ||
      (row.state == .activating && row.demandReason == .planner))

/-- One row of `advanceWaitingLaneDesiredGeneration`: a planner keeps the checkout it reads, and
is marked for a successor. -/
def advanceRow (generation : Generation) (lanes : Lanes) (row : Preparation) :
    Lanes × LaneResult :=
  if isNewerGeneration (row.generation row.desired) generation = false then
    keepLanes lanes .alreadyCurrent
  else updatePreparationCas lanes row (fun r => { r.desire generation with
      successorNeeded := row.isRunning || row.state == .activating || r.successorNeeded })
    (if row.isRunning ∨ row.state = .activating then .runningSuccessorMarked
    else if row.state = .ready then .promoted else .coalescedQueued)

/-- `advanceWaitingLaneDesiredGeneration`, without its list of results. -/
def advanceWaitingLaneDesiredGeneration (lanes : Lanes) (generation : RawGeneration) : Lanes :=
  match normalizeWaitingLaneGeneration generation with
  | none => lanes
  | some generation =>
    ((lanes.filter (isAdvanced generation)).mergeSort
      (fun a b => a.workItemId ≤ b.workItemId)).foldl
      (fun lanes row => (advanceRow generation lanes row).1) lanes

/-! ## 5. Activation -/

/-- `claimWaitingLaneActivation`. -/
def claimWaitingLaneActivation (lanes : Lanes) (workItemId : ℕ) : Lanes × LaneResult :=
  match selectPreparation lanes workItemId with
  | none => keepLanes lanes .ineligible "missing_preparation"
  | some row =>
    if row.state = .retired then keepLanes lanes .retired
    else if row.state = .poisoned then keepLanes lanes .poisoned
    else if row.state = .activating ∧ row.demandReason = .planner then
      updatePreparationCas lanes row
        (fun r => { r with demandReason := .dev, successorNeeded := false }) .activationClaimed
    else if row.state = .activating ∨ row.state = .active then keepLanes lanes .alreadyCurrent
    else if row.state ∉ waitingLanePreparatoryStates then
      keepLanes lanes .ineligible "state_not_claimable"
    else updatePreparationCas lanes row
      (fun r => { r with state := .activating, successorNeeded := false }) .activationClaimed

/-- The asset of the row is exactly the desired one, with the proof of Atlas or, where there is no
Atlas job, of Git alone. -/
def Preparation.isPlannerReady (row : Preparation) : Bool :=
  match row.generation row.desired with
  | none => false
  | some desired =>
    (row.state == .ready && row.generation row.applied == some desired) ||
      (row.state == .waitingAtlas && row.atlasJobId.isNone &&
        (normalizeOptionalString row.applied.gitOid).map lower == some desired.gitOid)

/-- `claimWaitingLanePlanning`. -/
def claimWaitingLanePlanning (lanes : Lanes) (workItemId : ℕ) : Lanes × LaneResult :=
  match selectPreparation lanes workItemId with
  | none => keepLanes lanes .ineligible "missing_preparation"
  | some row =>
    if row.state = .poisoned then keepLanes lanes .poisoned
    else if row.state = .retired then keepLanes lanes .retired
    else if row.state = .activating ∧ row.demandReason = .planner then
      keepLanes lanes .alreadyCurrent
    else if row.state = .activating ∨ row.state = .active then
      keepLanes lanes .ineligible "state_not_planner_claimable"
    else if row.isPlannerReady = false then
      keepLanes lanes .ineligible "preparation_not_planner_ready"
    else updatePreparationCas lanes row (fun r => { r with
      state := .activating, demandReason := .planner, successorNeeded := false })
      .activationClaimed

/-- The changes that end a row. -/
def Preparation.finish (row : Preparation) (state : LaneState) (reason : Option String)
    (fallback : String) : Preparation :=
  { row with
    state := state, successorNeeded := false
    poisonedReason := some (normalizedTerminalReason reason fallback) }

/-- Another plan or dev job of the work item is live. -/
def hasOtherConsumer (db : Db) (workItemId consumerJobId : ℕ) : Bool :=
  db.jobs.any (fun job => job.workItemId == some workItemId && job.id != consumerJobId &&
    job.jobType ∈ [JobType.plan, .dev] && job.status ∈ .queued :: lockHoldingJobStatuses)

/-- `retireWaitingLanePlanning`. -/
def retireWaitingLanePlanning (db : Db) (lanes : Lanes) (workItemId : ℕ)
    (reason : Option String) (consumerJobId : Option ℕ) : Lanes × LaneResult :=
  match selectPreparation lanes workItemId with
  | none => keepLanes lanes .ineligible "missing_preparation"
  | some row =>
    if row.state ≠ .activating ∨ row.demandReason ≠ .planner then
      keepLanes lanes .ineligible "state_not_planner_reserved"
    else if consumerJobId.any (fun id => 0 < id && hasOtherConsumer db workItemId id) then
      keepLanes lanes .alreadyCurrent "planner_reservation_still_consumed"
    else updatePreparationCas lanes row
      (fun r => r.finish .retired reason "planner_no_dev_demand") .retired

/-- `markWaitingLaneActive`. -/
def markWaitingLaneActive (lanes : Lanes) (workItemId : ℕ) (expectedVersion : Option ℤ)
    (actualGeneration : Option RawGeneration) : Lanes × LaneResult :=
  match casRow lanes workItemId expectedVersion with
  | none => keepLanes lanes .versionConflict
  | some row =>
    if row.state = .active then keepLanes lanes .alreadyCurrent
    else if row.state ≠ .activating then keepLanes lanes .ineligible "state_not_activating"
    else
      let actual := match actualGeneration with
        | none => row.generation row.applied
        | some value => normalizeWaitingLaneGeneration value
      match actual with
      | none => keepLanes lanes .ineligible "generation_not_current"
      | some generation =>
        if row.generation row.desired ≠ some generation then
          keepLanes lanes .ineligible "generation_not_current"
        else updatePreparationCas lanes row (fun r => { r with
          applied := generation.coordinates, state := .active, successorNeeded := false })
          .promoted

/-! ## 6. Ends -/

/-- The expected version of a caller that gave one is not the row's. -/
def versionRefused (expectedVersion : Option ℤ) (row : Preparation) : Bool :=
  expectedVersion.isSome && normalizeExpectedVersion expectedVersion != some row.version

/-- `retireWaitingLanePreparation`. -/
def retireWaitingLanePreparation (lanes : Lanes) (workItemId : ℕ) (expectedVersion : Option ℤ)
    (reason : Option String) : Lanes × LaneResult :=
  match selectPreparation lanes workItemId with
  | none => keepLanes lanes .ineligible "missing_preparation"
  | some row =>
    if versionRefused expectedVersion row then keepLanes lanes .versionConflict
    else if row.state = .retired then keepLanes lanes .retired
    else if row.state = .poisoned then keepLanes lanes .poisoned
    else updatePreparationCas lanes row (fun r => r.finish .retired reason "retired") .retired

/-- `poisonWaitingLanePreparation`: a retired row may still be poisoned. -/
def poisonWaitingLanePreparation (lanes : Lanes) (workItemId : ℕ) (expectedVersion : Option ℤ)
    (reason : Option String) : Lanes × LaneResult :=
  match selectPreparation lanes workItemId with
  | none => keepLanes lanes .ineligible "missing_preparation"
  | some row =>
    if versionRefused expectedVersion row then keepLanes lanes .versionConflict
    else if row.state = .poisoned then keepLanes lanes .poisoned
    else updatePreparationCas lanes row (fun r => r.finish .poisoned reason "poisoned") .poisoned

/-- `clearWaitingLanePreparedAssetProof`. -/
def clearWaitingLanePreparedAssetProof (lanes : Lanes) (workItemId : ℕ)
    (expectedVersion : Option ℤ) : Lanes × LaneResult :=
  match casRow lanes workItemId expectedVersion with
  | none => keepLanes lanes .versionConflict
  | some row =>
    if row.state ∉ waitingLaneTerminalStates then keepLanes lanes .ineligible "state_not_terminal"
    else if row.worktreeRoot.isNone ∧ row.projectCwd.isNone ∧ row.ownershipRecordId.isNone ∧
        row.applied = {} then keepLanes lanes .alreadyCurrent
    else updatePreparationCas lanes row (fun r => { r with
      worktreeRoot := none, projectCwd := none, ownershipRecordId := none, applied := {} })
      .promoted

/-- `storeWaitingLaneHotPaths`. -/
def storeWaitingLaneHotPaths (lanes : Lanes) (workItemId : ℕ) (hotPaths : List String) :
    Lanes × LaneResult :=
  match selectPreparation lanes workItemId with
  | none => keepLanes lanes .ineligible "missing_preparation"
  | some row =>
    if row.state ∈ [LaneState.activating, .active, .poisoned, .retired] then
      keepLanes lanes .alreadyCurrent
    else if row.hotPaths = hotPaths then keepLanes lanes .alreadyCurrent
    else updatePreparationCas lanes row (fun r => { r with hotPaths := hotPaths }) .promoted

end PosseClient
