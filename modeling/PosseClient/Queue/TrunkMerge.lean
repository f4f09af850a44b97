/-
# The journal of shared-trunk publications

`shared-trunk-merge-state.js`.  An operation is the crash-recovery record of one push to the shared
trunk: it is begun before the first external Git mutation, moves through versioned phases, and is
published together with its merge evidence and, where it is the final one, with the settlement of
its work item.

* Each function is one transaction: an error rolls it back, and a crash is between two of them.
* The evidence of an operation is looked for by a `LIKE` on the JSON of the events, so both the JSON
  and the pattern are text here.
-/
import PosseClient.Queue.WaitingLanes
import PosseClient.Queue.WorkItemMerge

namespace PosseClient

/-! ## 1. Rows -/

/-- `SHARED_TRUNK_MERGE_PURPOSES`. -/
inductive TrunkPurpose
  | final | iterative
  deriving DecidableEq, Repr

/-- `SHARED_TRUNK_MERGE_PHASES`. -/
inductive TrunkPhase
  | intent | candidate | publishUnknown | deferred | published | abandoned
  deriving DecidableEq, Repr

/-- The purpose a caller names. -/
def TrunkPurpose.parse : String → Option TrunkPurpose
  | "final" => some .final
  | "iterative" => some .iterative
  | _ => none

/-- The text of a purpose. -/
def TrunkPurpose.text : TrunkPurpose → String
  | .final => "final"
  | .iterative => "iterative"

/-- The phase a caller names. -/
def TrunkPhase.parse : String → Option TrunkPhase
  | "intent" => some .intent
  | "candidate" => some .candidate
  | "publish_unknown" => some .publishUnknown
  | "deferred" => some .deferred
  | "published" => some .published
  | "abandoned" => some .abandoned
  | _ => none

/-- A row of `shared_trunk_merge_operations`, as `decodeOperation` reads it. -/
structure TrunkOperation where
  operationId : String
  workItemId : ℕ
  purpose : TrunkPurpose
  purposeKey : String
  sourceBranch : String
  sourceSha : String
  targetBranch : String
  remote : String
  baseSha : String
  expectedRemoteSha : String
  candidateSha : Option String := none
  phase : TrunkPhase := .intent
  attempt : ℕ := 0
  version : ℕ := 1
  lastErrorCode : Option String := none
  deriving DecidableEq, Repr

/-- The durable events the journal writes. -/
inductive TrunkEventType
  | workItemMerged | workItemIterationPassMerged | sharedTrunkOperationAbandoned
  deriving DecidableEq, Repr

/-- A row of `events`; `operationId` is the member of that name in `eventJson`, if it has one. -/
structure TrunkEvent where
  workItemId : ℕ
  eventType : TrunkEventType
  operationId : Option String
  eventJson : String
  deriving DecidableEq, Repr

/-- The database, as far as the journal reads and writes it. -/
structure Journal where
  db : Db := {}
  operations : List TrunkOperation := []
  events : List TrunkEvent := []
  deriving DecidableEq, Repr

/-- What the module throws. -/
inductive TrunkError
  | required (name : String)
  | invalidWorkItemId
  | unsupportedPurpose (purpose : String)
  | unsupportedPhase (phase : String)
  | publishedPhase
  | invalidVersion
  | foreignKey | primaryKey
  | abandonedTransition (operationId : String)
  | abandonedPublication (operationId : String)
  | noCandidate (operationId : String)
  | settlementFailed (operationId : String)
  | changedConcurrently (operationId : String)
  deriving DecidableEq, Repr

/-- The text of an error; the two of the database have its own. -/
def TrunkError.message : TrunkError → Option String
  | .required name => some (name ++ " is required")
  | .invalidWorkItemId => some "workItemId must be a positive integer"
  | .unsupportedPurpose purpose => some ("Unsupported shared-trunk merge purpose: " ++ purpose)
  | .unsupportedPhase phase => some ("Unsupported shared-trunk merge phase: " ++ phase)
  | .publishedPhase =>
    some "Use finalizePublishedSharedTrunkMergeOperation for atomic publication settlement"
  | .invalidVersion => some "expectedVersion must be a positive integer"
  | .foreignKey => none
  | .primaryKey => none
  | .abandonedTransition id =>
    some ("Shared-trunk operation " ++ id ++ " is abandoned and cannot transition")
  | .abandonedPublication id =>
    some ("Shared-trunk operation " ++ id ++ " is abandoned and cannot be published")
  | .noCandidate id => some ("Shared-trunk operation " ++ id ++ " has no publishable candidate")
  | .settlementFailed id =>
    some ("Queue settlement failed for shared-trunk operation " ++ id)
  | .changedConcurrently id => some ("Shared-trunk operation " ++ id ++ " changed concurrently")

/-- The tables after a call, and its answer. -/
abbrev JournalResult := Except TrunkError (Journal × Option TrunkOperation)

/-- `requiredString`. -/
def requiredString (value name : String) : Except TrunkError String :=
  if trim value = "" then .error (.required name) else .ok (trim value)

/-- `requiredWorkItemId`. -/
def requiredWorkItemId (value : ℤ) : Except TrunkError ℕ :=
  if 0 < value ∧ isCounter value then .ok value.toNat else .error .invalidWorkItemId

/-- The check of `expectedVersion`. -/
def requiredVersion (value : ℤ) : Except TrunkError ℕ :=
  if 0 < value ∧ isCounter value then .ok value.toNat else .error .invalidVersion

/-- `selectOperation`. -/
def Journal.selectOperation (j : Journal) (operationId : String) : Option TrunkOperation :=
  Table.lookup TrunkOperation.operationId operationId j.operations

/-! ## 2. Intents -/

/-- The arguments of `beginSharedTrunkMergeOperation`. -/
structure TrunkIntent where
  operationId : String
  workItemId : ℤ
  purpose : String := "final"
  purposeKey : Option String := none
  sourceBranch : String
  sourceSha : String
  targetBranch : String
  remote : String
  baseSha : String
  expectedRemoteSha : String
  attempt : ℤ := 0
  deriving DecidableEq, Repr

/-- The `input` of `beginSharedTrunkMergeOperation`, as the row it would insert. -/
def TrunkIntent.normalize (intent : TrunkIntent) : Except TrunkError TrunkOperation := do
  let named ← requiredString intent.purpose "purpose"
  let some purpose := TrunkPurpose.parse named | throw (.unsupportedPurpose named)
  let sourceSha ← requiredString intent.sourceSha "sourceSha"
  let operationId ← requiredString intent.operationId "operationId"
  let workItemId ← requiredWorkItemId intent.workItemId
  let purposeKey ← requiredString ((intent.purposeKey.filter (· != "")).getD sourceSha) "purposeKey"
  let sourceBranch ← requiredString intent.sourceBranch "sourceBranch"
  let targetBranch ← requiredString intent.targetBranch "targetBranch"
  let remote ← requiredString intent.remote "remote"
  let baseSha ← requiredString intent.baseSha "baseSha"
  let expectedRemoteSha ← requiredString intent.expectedRemoteSha "expectedRemoteSha"
  return { operationId, workItemId, purpose, purposeKey, sourceBranch, sourceSha, targetBranch,
           remote, baseSha, expectedRemoteSha, attempt := intent.attempt.toNat }

/-- The key of the table's `UNIQUE` constraint. -/
def TrunkOperation.identity (o : TrunkOperation) : ℕ × TrunkPurpose × String :=
  (o.workItemId, o.purpose, o.purposeKey)

/-- The transaction of `beginSharedTrunkMergeOperation`. -/
def insertOperation (j : Journal) (row : TrunkOperation) : JournalResult :=
  match j.operations.find? (fun o => o.identity == row.identity) with
  | some existing => .ok (j, some existing)
  | none =>
    if (j.db.getWorkItem row.workItemId).isNone then .error .foreignKey
    else if (j.selectOperation row.operationId).isSome then .error .primaryKey
    else .ok ({ j with operations := j.operations ++ [row] }, some row)

/-- `beginSharedTrunkMergeOperation`. -/
def beginSharedTrunkMergeOperation (j : Journal) (intent : TrunkIntent) : JournalResult := do
  insertOperation j (← intent.normalize)

/-! ## 3. Transitions -/

/-- The arguments of `transitionSharedTrunkMergeOperation`; `none` is `undefined`, and the inner
`none` of the two nullable ones is `null`. -/
structure TrunkTransition where
  expectedVersion : ℤ
  phase : String
  candidateSha : Option (Option String) := none
  baseSha : Option String := none
  expectedRemoteSha : Option String := none
  attempt : Option ℤ := none
  lastErrorCode : Option (Option String) := none
  deriving DecidableEq, Repr

/-- The phase a transition may name. -/
def transitionPhase (phase : String) : Except TrunkError TrunkPhase := do
  let named ← requiredString phase "phase"
  match TrunkPhase.parse named with
  | none => throw (.unsupportedPhase named)
  | some .published => throw .publishedPhase
  | some phase => return phase

/-- A required column that a transition may leave as it is. -/
def requiredColumn (value : Option String) (current name : String) : Except TrunkError String :=
  match value with
  | none => .ok current
  | some value => requiredString value name

/-- `UPDATE shared_trunk_merge_operations .. WHERE operation_id = ? AND version = ?`, and its
`changes`. -/
def Journal.updateOperation (j : Journal) (current : TrunkOperation)
    (f : TrunkOperation → TrunkOperation) : Journal × ℕ :=
  let p := fun o : TrunkOperation =>
    o.operationId == current.operationId && o.version == current.version
  let written := Table.updateWhere p (fun o => { f o with version := o.version + 1 }) j.operations
  ({ j with operations := written }, Table.changes p j.operations)

/-- `nextCandidate`. -/
def TrunkTransition.nextCandidate (args : TrunkTransition) (o : TrunkOperation) : Option String :=
  match args.candidateSha with
  | none => o.candidateSha
  | some sha => (sha.map trim).filter (· != "")

/-- `nextError`. -/
def TrunkTransition.nextError (args : TrunkTransition) (o : TrunkOperation) : Option String :=
  match args.lastErrorCode with
  | none => o.lastErrorCode
  | some code => (code.filter (· != "")).map (fun s => String.ofList (s.toList.take 160))

/-- The columns a transition writes. -/
def TrunkTransition.write (args : TrunkTransition) (phase : TrunkPhase)
    (baseSha expectedRemoteSha : String) (o : TrunkOperation) : TrunkOperation :=
  { o with
    phase := phase
    candidateSha := args.nextCandidate o
    baseSha := baseSha
    expectedRemoteSha := expectedRemoteSha
    attempt := (args.attempt.map Int.toNat).getD o.attempt
    lastErrorCode := args.nextError o }

/-- The transaction of `transitionSharedTrunkMergeOperation`: a stale writer receives `none`. -/
def transitionOperation (j : Journal) (operationId : String) (args : TrunkTransition)
    (phase : TrunkPhase) (version : ℕ) : JournalResult :=
  match j.selectOperation operationId with
  | none => .ok (j, none)
  | some current =>
    if current.version ≠ version then .ok (j, none)
    else if current.phase = .abandoned then .error (.abandonedTransition current.operationId)
    else do
      let baseSha ← requiredColumn args.baseSha current.baseSha "baseSha"
      let expected ← requiredColumn args.expectedRemoteSha current.expectedRemoteSha
        "expectedRemoteSha"
      let (j', changes) := j.updateOperation current (args.write phase baseSha expected)
      return (j', if changes = 1 then j'.selectOperation current.operationId else none)

/-- `transitionSharedTrunkMergeOperation`. -/
def transitionSharedTrunkMergeOperation (j : Journal) (operationId : String)
    (args : TrunkTransition) : JournalResult := do
  let phase ← transitionPhase args.phase
  let version ← requiredVersion args.expectedVersion
  let id ← requiredString operationId "operationId"
  transitionOperation j id args phase version

/-! ## 4. Text of the events -/

/-- A character as `JSON.stringify` writes it in a string. -/
def jsonChar (c : Char) : List Char :=
  if c = '"' then ['\\', '"']
  else if c = '\\' then ['\\', '\\']
  else if c.toNat = 8 then ['\\', 'b']
  else if c.toNat = 9 then ['\\', 't']
  else if c.toNat = 10 then ['\\', 'n']
  else if c.toNat = 12 then ['\\', 'f']
  else if c.toNat = 13 then ['\\', 'r']
  else if c.toNat < 32 then
    ['\\', 'u', '0', '0', Nat.digitChar (c.toNat / 16), Nat.digitChar (c.toNat % 16)]
  else [c]

/-- `JSON.stringify` of a string. -/
def jsonString (s : String) : String := "\"" ++ String.ofList (s.toList.flatMap jsonChar) ++ "\""

/-- `JSON.stringify` of an object, given the texts of its members' values. -/
def jsonObject (members : List (String × String)) : String :=
  "\x7b" ++ String.intercalate ","
    (members.map (fun member => jsonString member.1 ++ ":" ++ member.2)) ++ "\x7d"

/-- The test holds at some tail of the text. -/
def someTail (test : List Char → Bool) : List Char → Bool
  | [] => test []
  | c :: cs => test (c :: cs) || someTail test cs

/-- `text LIKE pattern ESCAPE '\'` of SQLite, where case is ignored in ASCII. -/
def sqlLike : List Char → List Char → Bool
  | [], text => text.isEmpty
  | '%' :: pattern, text => someTail (sqlLike pattern) text
  | '_' :: pattern, _ :: text => sqlLike pattern text
  | '\\' :: c :: pattern, d :: text => c.toLower == d.toLower && sqlLike pattern text
  | c :: pattern, d :: text => c != '\\' && c.toLower == d.toLower && sqlLike pattern text
  | _ :: _, [] => false

/-- `id.replace(/[%_]/g, "\\$&")`. -/
def escapeWildcards (id : String) : List Char :=
  id.toList.flatMap (fun c => if c = '%' ∨ c = '_' then ['\\', c] else [c])

/-- The pattern the evidence of an operation is looked for by. -/
def evidencePattern (id : String) : List Char :=
  "%\"operation_id\":\"".toList ++ escapeWildcards id ++ "\"%".toList

/-! ## 5. Ends -/

/-- `logDurableEvent`. -/
def Journal.logDurableEvent (j : Journal) (event : TrunkEvent) : Journal :=
  { j with events := j.events ++ [event] }

/-- The text of an optional member. -/
def jsonNullable : Option String → String
  | none => "null"
  | some s => jsonString s

/-- `abandonSharedTrunkMergeOperation`.  Its event is logged after the transaction of the
transition; a crash in between leaves the transition alone. -/
def abandonSharedTrunkMergeOperation (j : Journal) (operationId : String) (expectedVersion : ℤ)
    (lastErrorCode : Option String) : JournalResult := do
  let id ← requiredString operationId "operationId"
  match j.selectOperation id with
  | none => return (j, none)
  | some _ =>
    match ← transitionSharedTrunkMergeOperation j operationId
      { expectedVersion, phase := "abandoned", lastErrorCode := some lastErrorCode } with
    | (j', none) => return (j', none)
    | (j', some abandoned) =>
      return (j'.logDurableEvent
        { workItemId := abandoned.workItemId
          eventType := .sharedTrunkOperationAbandoned
          operationId := some abandoned.operationId
          eventJson := jsonObject
            [("operation_id", jsonString abandoned.operationId),
              ("candidate_sha", jsonNullable abandoned.candidateSha),
              ("target_branch", jsonString abandoned.targetBranch),
              ("remote", jsonString abandoned.remote),
              ("reason", jsonNullable abandoned.lastErrorCode)] }, some abandoned)

/-- `finalizeApprovedWorkItemMerge`; the answer is its `ok`. -/
def finalizeApprovedWorkItemMerge (env : WorkItemEnv) (clock : Clock) (db : Db)
    (workItemId : ℕ) : Db × Bool :=
  match db.getWorkItem workItemId with
  | none => (db, false)
  | some _ =>
    let merged := setMergeState env clock db workItemId (some .merged)
    let completed := updateWorkItemStatus env clock merged workItemId .complete
      { allowTerminalFailureBlockers := true, resolvePendingReviews := true }
    (completed.1, completed.2 && (completed.1.getWorkItem workItemId).any
      (fun wi => wi.mergeState == some .merged && wi.status == .complete))

/-- The type of the evidence of an operation. -/
def TrunkOperation.evidenceType (o : TrunkOperation) : TrunkEventType :=
  match o.purpose with
  | .final => .workItemMerged
  | .iterative => .workItemIterationPassMerged

/-- `evidenceExists`. -/
def Journal.evidenceExists (j : Journal) (o : TrunkOperation) : Bool :=
  j.events.any (fun event => event.workItemId == o.workItemId &&
    event.eventType == o.evidenceType &&
    sqlLike (evidencePattern o.operationId) event.eventJson.toList)

/-- The evidence of a publication. -/
def TrunkOperation.evidence (o : TrunkOperation) (remoteSha : Option String) (recovered : Bool) :
    TrunkEvent :=
  let candidate := o.candidateSha.getD ""
  { workItemId := o.workItemId
    eventType := o.evidenceType
    operationId := some o.operationId
    eventJson := jsonObject
      [("operation_id", jsonString o.operationId),
        ("purpose", jsonString o.purpose.text),
        ("branch", jsonString o.sourceBranch),
        ("source_sha", jsonString o.sourceSha),
        ("merge_hash", jsonString candidate),
        ("target_branch", jsonString o.targetBranch),
        ("remote", jsonString o.remote),
        ("remote_sha", jsonString ((remoteSha.filter (· != "")).getD candidate)),
        ("recovered", if recovered then "true" else "false")] }

/-- The settlement of the work item of a final operation. -/
def settleOperation (env : WorkItemEnv) (clock : Clock) (j : Journal) (o : TrunkOperation) :
    Except TrunkError Journal :=
  match o.purpose with
  | .iterative => .ok j
  | .final =>
    let settlement := finalizeApprovedWorkItemMerge env clock j.db o.workItemId
    if settlement.2 then .ok { j with db := settlement.1 }
    else .error (.settlementFailed o.operationId)

/-- The phases an operation is published from. -/
def publishablePhases : List TrunkPhase := [.candidate, .publishUnknown]

/-- The transaction of `finalizePublishedSharedTrunkMergeOperation`. -/
def publishOperation (env : WorkItemEnv) (clock : Clock) (j : Journal) (operationId : String)
    (version : ℕ) (remoteSha : Option String) (recovered : Bool) : JournalResult :=
  match j.selectOperation operationId with
  | none => .ok (j, none)
  | some o =>
    if o.version ≠ version then .ok (j, none)
    else if o.phase = .published then .ok (j, some o)
    else if o.phase = .abandoned then .error (.abandonedPublication operationId)
    else if o.phase ∉ publishablePhases ∨ o.candidateSha.isNone then
      .error (.noCandidate operationId)
    else do
      let logged := if j.evidenceExists o then j
        else j.logDurableEvent (o.evidence remoteSha recovered)
      let settled ← settleOperation env clock logged o
      let (published, changes) := settled.updateOperation o
        (fun row => { row with phase := .published, lastErrorCode := none })
      if changes ≠ 1 then throw (.changedConcurrently operationId)
      else return (published, published.selectOperation operationId)

/-- `finalizePublishedSharedTrunkMergeOperation`. -/
def finalizePublishedSharedTrunkMergeOperation (env : WorkItemEnv) (clock : Clock) (j : Journal)
    (operationId : String) (expectedVersion : ℤ) (remoteSha : Option String)
    (recovered : Bool) : JournalResult := do
  let id ← requiredString operationId "operationId"
  let version ← requiredVersion expectedVersion
  publishOperation env clock j id version remoteSha recovered

end PosseClient
