/-
# The unlock graph

`buildUnlockGraph` of `unlock-ranking.js`: which live jobs wait for which jobs, by unsatisfied hard
dependencies, shared contracts and files.

* `edgeCalls`: the calls of `edge`, in the order of the source.
* `buildUnlockGraph`: the two maps that they fill, `needs` and `outgoing`.
* `WaitsFor`: when a job waits for another, read off the tables.
* `needs_iff`, `outgoing_iff`: `needs` has all of it, `outgoing` what live jobs are waited for.

`normalizeRepoPath` is an argument; the keys of plan tasks are as `strictKey` writes them.
-/
import PosseClient.Store.Schema
import PosseClient.Scope.Path
import PosseClient.Lib.KeyedMap
import PosseClient.Lib.Json

namespace PosseClient

open Table KeyedMap

/-! ## 1. The tables -/

/-- The `priority` column of `jobs`. -/
inductive JobPriority
  | low | normal | high | urgent
  deriving DecidableEq, Repr

/-- The members of a payload that the ranking reads; `none` is `undefined`. -/
structure UnlockPayload (φ : Type*) where
  taskMode : Option Json.Value := none
  assessOnly : Option Json.Value := none
  planTaskKey : String := "undefined:undefined"
  sharedContractOwnerKeys : List String := []
  filesToModify : List φ := []
  filesToCreate : List φ := []
  filesToDelete : List φ := []
  createRoots : List φ := []

/-- A row of `jobs`; `createdMs` is `Date.parse` of `createdAt`. -/
structure UnlockJob (φ : Type*) where
  id : ℕ
  workItemId : Option ℕ := none
  parentJobId : Option ℕ := none
  jobType : JobType
  status : JobStatus
  priority : JobPriority := .normal
  createdAt : String := ""
  createdMs : Option ℤ := none
  payload : UnlockPayload φ := {}

/-- A row of `file_lane_waits`. -/
structure FileLaneWait where
  waiterJobId : ℕ
  holderJobId : Option ℕ := none
  holderWorkItemId : Option ℕ := none
  path : String
  lockKind : LockKind
  deriving DecidableEq, Repr

/-- The tables that the graph is read from; the id of a job is its primary key. -/
structure UnlockTables (φ : Type*) where
  jobs : List (UnlockJob φ) := []
  dependencies : List Dependency := []
  workItemFileLocks : List WorkItemFileLock := []
  jobFileLocks : List JobFileLock := []
  fileLaneWaits : List FileLaneWait := []
  jobs_key : (jobs.map UnlockJob.id).Nodup

/-! ## 2. Scopes -/

/-- Whether a value counts as true. -/
def isTruthy : Option Json.Value → Bool
  | none | some .null => false
  | some (.bool b) => b
  | some (.number n) => n.text != [48]
  | some (.string s) => s != []
  | some (.array _) | some (.object _) => true

section Graph

variable {φ : Type*} (normalizeRepoPath : φ → String)

/-- `["dev", "fix", "promote"].includes(job.job_type)`. -/
def UnlockJob.isWriter (job : UnlockJob φ) : Bool :=
  [JobType.dev, JobType.fix, JobType.promote].contains job.jobType

/-- `[undefined, "code"].includes(payload.task_mode)`. -/
def UnlockPayload.isCodeTask (payload : UnlockPayload φ) : Bool :=
  match payload.taskMode with
  | none => true
  | some (.string s) => s == [99, 111, 100, 101]
  | some _ => false

/-- The rows of `finalReviewScope`: the files without repetition, then the roots. -/
def UnlockPayload.scope (payload : UnlockPayload φ) : List LockRow :=
  let files := (((payload.filesToModify ++ payload.filesToCreate ++ payload.filesToDelete).map
    normalizeRepoPath).filter (· ≠ "")).eraseDups
  let roots := (payload.createRoots.map normalizeRepoPath).filter (· ≠ "")
  files.map (⟨·, .file⟩) ++ roots.map (⟨·, .root⟩)

/-- `scopeRows`. -/
def scopeRows (job : UnlockJob φ) : List LockRow :=
  if !job.isWriter || !job.payload.isCodeTask || isTruthy job.payload.assessOnly then []
  else if job.payload.scope normalizeRepoPath = [] then [starRow]
  else job.payload.scope normalizeRepoPath

/-- `findLockRowOverlap` with one row on the right. -/
def touchesRow (rows : List LockRow) (row : LockRow) : Bool := rows.any (row.conflict ·)

/-! ## 3. The edges -/

inductive EdgeKind
  | dependency | file | contract
  deriving DecidableEq, Repr

structure EdgeReason where
  kind : EdgeKind
  file : Option String
  deriving DecidableEq, Repr

/-- A call of `edge`. -/
structure EdgeCall where
  producer : ℕ
  consumer : ℕ
  reason : EdgeReason
  deriving DecidableEq, Repr

/-- `jobs`: the live jobs. -/
def UnlockTables.live (tables : UnlockTables φ) : List (UnlockJob φ) :=
  tables.jobs.filter fun job => decide (job.status ∉ terminalJobStatuses)

/-- `byId.has`. -/
def UnlockTables.isLive (tables : UnlockTables φ) (id : ℕ) : Bool :=
  tables.live.any fun job => job.id == id

/-- The hard dependencies on jobs that did not succeed. -/
def dependencyCalls (tables : UnlockTables φ) : List EdgeCall :=
  (tables.dependencies.filter fun d => d.kind == .hard && tables.jobs.any fun producer =>
    producer.id == d.dependsOnJobId && producer.status != .succeeded).map
    fun d => ⟨d.dependsOnJobId, d.jobId, ⟨.dependency, none⟩⟩

/-- The owners of a contract: the live jobs of its task key beside the consumer. -/
def contractOwners (tables : UnlockTables φ) (consumer : UnlockJob φ) (ownerKey : String) :
    List (UnlockJob φ) :=
  tables.live.filter fun owner => decide (owner.workItemId = consumer.workItemId) &&
    decide (owner.parentJobId = consumer.parentJobId) && owner.payload.planTaskKey == ownerKey

/-- A contract with one owner. -/
def contractCalls (tables : UnlockTables φ) : List EdgeCall :=
  tables.live.flatMap fun consumer =>
    consumer.payload.sharedContractOwnerKeys.flatMap fun ownerKey =>
      match contractOwners tables consumer ownerKey with
      | [owner] => [⟨owner.id, consumer.id, ⟨.contract, none⟩⟩]
      | _ => []

/-- What a job waits for at a file: the work item that holds it, and the job if one is named. -/
structure FileHold where
  workItemId : Option ℕ
  row : LockRow
  jobId : Option ℕ
  deriving DecidableEq, Repr

/-- `fileOwners`. -/
def fileOwnerCalls (tables : UnlockTables φ) (waiter : UnlockJob φ) (hold : FileHold) :
    List EdgeCall :=
  let call (producer : ℕ) : EdgeCall := ⟨producer, waiter.id, ⟨.file, some hold.row.path⟩⟩
  (match hold.jobId with
    | none => []
    | some holderJob => [call holderJob]) ++
  ((tables.live.filter UnlockJob.isWriter).filter fun owner =>
    decide (owner.workItemId = hold.workItemId) &&
      touchesRow (scopeRows normalizeRepoPath owner) hold.row).map fun owner => call owner.id

/-- The locks of both tables that are held. -/
def heldLocks (tables : UnlockTables φ) : List FileHold :=
  ((tables.workItemFileLocks.filter (·.releaseReason.isNone)).map fun lock =>
    ⟨some lock.workItemId, ⟨lock.path, lock.lockKind⟩, none⟩) ++
  (tables.jobFileLocks.filter (·.releaseReason.isNone)).map fun lock =>
    ⟨some lock.workItemId, ⟨lock.path, lock.lockKind⟩, some lock.jobId⟩

/-- The live jobs that are queued. -/
def UnlockTables.queued (tables : UnlockTables φ) : List (UnlockJob φ) :=
  tables.live.filter fun job => job.status == .queued

/-- Locks of other work items on what a queued job plans to write. -/
def lockCalls (tables : UnlockTables φ) : List EdgeCall :=
  tables.queued.flatMap fun waiter => (heldLocks tables).flatMap fun lock =>
    if lock.workItemId ≠ waiter.workItemId ∧
        touchesRow (scopeRows normalizeRepoPath waiter) lock.row then
      fileOwnerCalls normalizeRepoPath tables waiter lock
    else []

/-- What a lane wait names. -/
def FileLaneWait.hold (wait : FileLaneWait) : FileHold :=
  ⟨wait.holderWorkItemId, ⟨wait.path, wait.lockKind⟩, wait.holderJobId⟩

/-- The recorded waits of queued jobs. -/
def waitCalls (tables : UnlockTables φ) : List EdgeCall :=
  tables.fileLaneWaits.flatMap fun wait =>
    match lookup UnlockJob.id wait.waiterJobId tables.live with
    | none => []
    | some waiter =>
      if waiter.status = .queued then fileOwnerCalls normalizeRepoPath tables waiter wait.hold
      else []

/-- The calls of `edge`. -/
def edgeCalls (tables : UnlockTables φ) : List EdgeCall :=
  dependencyCalls tables ++ contractCalls tables ++ lockCalls normalizeRepoPath tables ++
    waitCalls normalizeRepoPath tables

/-! ## 4. The maps -/

/-- `needs` has the producers of a job, `outgoing` its consumers with the reasons; `ids` are the keys
of both. -/
structure UnlockGraph where
  ids : List ℕ
  needs : ℕ → List ℕ
  outgoing : ℕ → List (ℕ × List EdgeReason)

def UnlockGraph.empty (ids : List ℕ) : UnlockGraph := ⟨ids, fun _ => [], fun _ => []⟩

/-- `edge`. -/
def UnlockGraph.edge (isLive : ℕ → Bool) (graph : UnlockGraph) (call : EdgeCall) : UnlockGraph :=
  if call.producer = call.consumer ∨ isLive call.consumer = false then graph
  else
    let producers := graph.needs call.consumer
    let needs := Function.update graph.needs call.consumer
      (if call.producer ∈ producers then producers else producers ++ [call.producer])
    if isLive call.producer = false then { graph with needs := needs }
    else
      let reasons := ((lookup Prod.fst call.consumer (graph.outgoing call.producer)).map
        Prod.snd).getD []
      { graph with
        needs := needs
        outgoing := Function.update graph.outgoing call.producer (put Prod.fst
          (call.consumer,
            if call.reason ∈ reasons then reasons else reasons ++ [call.reason])
          (graph.outgoing call.producer)) }

/-- `buildUnlockGraph`. -/
def buildUnlockGraph (tables : UnlockTables φ) : UnlockGraph :=
  (edgeCalls normalizeRepoPath tables).foldl (UnlockGraph.edge tables.isLive)
    (.empty (tables.live.map (·.id)))

end Graph

/-! ## 5. What the maps have -/

section Maps

variable {isLive : ℕ → Bool} {calls : List EdgeCall} {graph : UnlockGraph}

/-- A call drew an edge. -/
def Drawn (isLive : ℕ → Bool) (calls : List EdgeCall) (producer consumer : ℕ) : Prop :=
  (∃ call ∈ calls, call.producer = producer ∧ call.consumer = consumer) ∧
    producer ≠ consumer ∧ isLive consumer = true

/-- **The maps of the calls.** -/
structure GraphOf (isLive : ℕ → Bool) (calls : List EdgeCall) (graph : UnlockGraph) : Prop where
  mem_needs : ∀ producer consumer,
    producer ∈ graph.needs consumer ↔ Drawn isLive calls producer consumer
  needs_nodup : ∀ consumer, (graph.needs consumer).Nodup
  mem_outgoing : ∀ producer consumer, consumer ∈ (graph.outgoing producer).map Prod.fst ↔
    Drawn isLive calls producer consumer ∧ isLive producer = true
  outgoing_nodup : ∀ producer, ((graph.outgoing producer).map Prod.fst).Nodup

theorem drawn_concat {call : EdgeCall} {producer consumer : ℕ} :
    Drawn isLive (calls ++ [call]) producer consumer ↔ Drawn isLive calls producer consumer ∨
      (call.producer = producer ∧ call.consumer = consumer ∧ producer ≠ consumer ∧
        isLive consumer = true) := by
  unfold Drawn
  constructor
  · rintro ⟨⟨other, hother, hp, hc⟩, hne, hlive⟩
    rcases List.mem_append.mp hother with hother | hother
    · exact Or.inl ⟨⟨other, hother, hp, hc⟩, hne, hlive⟩
    · rw [List.mem_singleton.mp hother] at hp hc
      exact Or.inr ⟨hp, hc, hne, hlive⟩
  · rintro (⟨⟨other, hother, hp, hc⟩, hne, hlive⟩ | ⟨hp, hc, hne, hlive⟩)
    · exact ⟨⟨other, List.mem_append_left _ hother, hp, hc⟩, hne, hlive⟩
    · exact ⟨⟨call, List.mem_append_right _ List.mem_cons_self, hp, hc⟩, hne, hlive⟩

/-- A call that `edge` leaves out draws nothing. -/
theorem drawn_concat_of_skipped {call : EdgeCall}
    (hskip : call.producer = call.consumer ∨ isLive call.consumer = false)
    {producer consumer : ℕ} :
    Drawn isLive (calls ++ [call]) producer consumer ↔ Drawn isLive calls producer consumer := by
  rw [drawn_concat]
  refine or_iff_left ?_
  rintro ⟨rfl, rfl, hne, hlive⟩
  rcases hskip with heq | hdead
  · exact hne heq
  · rw [hdead] at hlive
    cases hlive

theorem GraphOf.empty (ids : List ℕ) : GraphOf isLive [] (.empty ids) := by
  constructor
  · intro producer consumer
    constructor
    · exact fun h => absurd h List.not_mem_nil
    · rintro ⟨⟨_, hcall, -⟩, -⟩
      cases hcall
  · exact fun _ => List.nodup_nil
  · intro producer consumer
    constructor
    · exact fun h => absurd h List.not_mem_nil
    · rintro ⟨⟨⟨_, hcall, -⟩, -⟩, -⟩
      cases hcall
  · exact fun _ => List.nodup_nil

theorem mem_setAdd {xs : List ℕ} {x y : ℕ} :
    y ∈ (if x ∈ xs then xs else xs ++ [x]) ↔ y ∈ xs ∨ y = x := by
  split
  case isTrue hmem =>
    constructor
    · exact Or.inl
    · rintro (hy | rfl)
      · exact hy
      · exact hmem
  case isFalse => rw [List.mem_append, List.mem_singleton]

theorem nodup_setAdd {xs : List ℕ} (h : xs.Nodup) (x : ℕ) :
    (if x ∈ xs then xs else xs ++ [x]).Nodup := by
  split
  case isTrue => exact h
  case isFalse hnot =>
    refine List.nodup_append.mpr ⟨h, List.nodup_singleton x, ?_⟩
    rintro a ha b hb rfl
    exact hnot (List.mem_singleton.mp hb ▸ ha)

/-- **A call of `edge`.** -/
theorem GraphOf.edge (h : GraphOf isLive calls graph) (call : EdgeCall) :
    GraphOf isLive (calls ++ [call]) (graph.edge isLive call) := by
  unfold UnlockGraph.edge
  split
  case isTrue hskip =>
    constructor
    · exact fun p c => (h.mem_needs p c).trans (drawn_concat_of_skipped hskip).symm
    · exact h.needs_nodup
    · intro p c
      rw [h.mem_outgoing, drawn_concat_of_skipped hskip]
    · exact h.outgoing_nodup
  case isFalse hdraws =>
    rw [not_or, Bool.not_eq_false] at hdraws
    obtain ⟨hne, hlive⟩ := hdraws
    have hneeds : ∀ p c, p ∈ Function.update graph.needs call.consumer
        (if call.producer ∈ graph.needs call.consumer then graph.needs call.consumer
          else graph.needs call.consumer ++ [call.producer]) c ↔
        Drawn isLive (calls ++ [call]) p c := by
      intro p c
      rw [drawn_concat, ← h.mem_needs]
      by_cases hc : c = call.consumer
      · subst hc
        rw [Function.update_self, mem_setAdd]
        refine or_congr_right ?_
        constructor
        · rintro rfl
          exact ⟨rfl, rfl, hne, hlive⟩
        · exact fun hcall => hcall.1.symm
      · rw [Function.update_of_ne hc]
        exact (or_iff_left fun hcall => hc hcall.2.1.symm).symm
    have hnodup : ∀ c, (Function.update graph.needs call.consumer
        (if call.producer ∈ graph.needs call.consumer then graph.needs call.consumer
          else graph.needs call.consumer ++ [call.producer]) c).Nodup := by
      intro c
      by_cases hc : c = call.consumer
      · subst hc
        rw [Function.update_self]
        exact nodup_setAdd (h.needs_nodup _) _
      · rw [Function.update_of_ne hc]
        exact h.needs_nodup c
    dsimp only
    split
    case isTrue hfinished =>
      refine ⟨hneeds, hnodup, fun p c => ?_, h.outgoing_nodup⟩
      dsimp only
      rw [h.mem_outgoing, drawn_concat]
      refine and_congr_left fun hp => (or_iff_left ?_).symm
      rintro ⟨rfl, -⟩
      rw [hfinished] at hp
      cases hp
    case isFalse hproducer =>
      rw [Bool.not_eq_false] at hproducer
      refine ⟨hneeds, hnodup, fun p c => ?_, fun p => ?_⟩
      · dsimp only
        rw [drawn_concat, or_and_right, ← h.mem_outgoing]
        by_cases hp : p = call.producer
        · subst hp
          rw [Function.update_self, mem_map_put, or_comm]
          refine or_congr_right ?_
          constructor
          · rintro rfl
            exact ⟨⟨rfl, rfl, hne, hlive⟩, hproducer⟩
          · exact fun hcall => hcall.1.2.1.symm
        · rw [Function.update_of_ne hp]
          exact (or_iff_left fun hcall => hp hcall.1.1.symm).symm
      · dsimp only
        by_cases hp : p = call.producer
        · subst hp
          rw [Function.update_self]
          exact nodup_put (h.outgoing_nodup _)
        · rw [Function.update_of_ne hp]
          exact h.outgoing_nodup p

theorem GraphOf.foldl (h : GraphOf isLive calls graph) (more : List EdgeCall) :
    GraphOf isLive (calls ++ more) (more.foldl (UnlockGraph.edge isLive) graph) := by
  induction more generalizing calls graph with
  | nil =>
    rw [List.append_nil]
    exact h
  | cons call more ih =>
    have hstep := ih (h.edge call)
    rwa [List.append_assoc, List.singleton_append] at hstep

end Maps

/-! ## 6. Who waits for whom -/

section WaitsFor

variable {φ : Type*} (normalizeRepoPath : φ → String) (tables : UnlockTables φ)

/-- A hard dependency on a job that did not succeed. -/
def HardUnsatisfied (consumer producer : ℕ) : Prop :=
  ∃ d ∈ tables.dependencies, d.kind = .hard ∧ d.jobId = consumer ∧ d.dependsOnJobId = producer ∧
    ∃ job ∈ tables.jobs, job.id = producer ∧ job.status ≠ .succeeded

/-- A live job that a contract of `consumer` can name. -/
def OwnsContract (consumer : UnlockJob φ) (ownerKey : String) (owner : UnlockJob φ) : Prop :=
  owner ∈ tables.live ∧ owner.workItemId = consumer.workItemId ∧
    owner.parentJobId = consumer.parentJobId ∧ owner.payload.planTaskKey = ownerKey

/-- A shared contract that exactly one job owns. -/
def ContractOwner (consumer producer : ℕ) : Prop :=
  ∃ job ∈ tables.live, job.id = consumer ∧ ∃ ownerKey ∈ job.payload.sharedContractOwnerKeys,
    ∃ owner, OwnsContract tables job ownerKey owner ∧ owner.id = producer ∧
      ∀ other, OwnsContract tables job ownerKey other → other = owner

/-- A hold that a queued job waits for: a lock of another work item on what it plans to write, or a
recorded wait. -/
def AwaitsHold (waiter : UnlockJob φ) (hold : FileHold) : Prop :=
  (hold ∈ heldLocks tables ∧ hold.workItemId ≠ waiter.workItemId ∧
      touchesRow (scopeRows normalizeRepoPath waiter) hold.row = true) ∨
    ∃ wait ∈ tables.fileLaneWaits, wait.waiterJobId = waiter.id ∧ wait.hold = hold

/-- A job that keeps a file: the job of the hold, or a writer of its work item that plans to write
there. -/
def KeepsHold (hold : FileHold) (producer : ℕ) : Prop :=
  hold.jobId = some producer ∨ ∃ owner ∈ tables.live, owner.id = producer ∧
    owner.isWriter = true ∧ owner.workItemId = hold.workItemId ∧
    touchesRow (scopeRows normalizeRepoPath owner) hold.row = true

/-- A file wait. -/
def FileWait (consumer producer : ℕ) : Prop :=
  ∃ waiter ∈ tables.queued, waiter.id = consumer ∧ ∃ hold,
    AwaitsHold normalizeRepoPath tables waiter hold ∧
      KeepsHold normalizeRepoPath tables hold producer

/-- **A live job waits for another**, live or not. -/
def WaitsFor (consumer producer : ℕ) : Prop :=
  producer ≠ consumer ∧ tables.isLive consumer = true ∧
    (HardUnsatisfied tables consumer producer ∨ ContractOwner tables consumer producer ∨
      FileWait normalizeRepoPath tables consumer producer)

variable {tables} {consumer producer : ℕ}

theorem mem_dependencyCalls :
    (∃ call ∈ dependencyCalls tables, call.producer = producer ∧ call.consumer = consumer) ↔
      HardUnsatisfied tables consumer producer := by
  unfold dependencyCalls HardUnsatisfied
  constructor
  · rintro ⟨call, hcall, rfl, rfl⟩
    obtain ⟨d, hd, rfl⟩ := List.mem_map.mp hcall
    obtain ⟨hd, hrow⟩ := List.mem_filter.mp hd
    obtain ⟨hkind, hany⟩ := Bool.and_eq_true_iff.mp hrow
    obtain ⟨job, hjob, hrow⟩ := List.any_eq_true.mp hany
    obtain ⟨hid, hstatus⟩ := Bool.and_eq_true_iff.mp hrow
    exact ⟨d, hd, eq_of_beq hkind, rfl, rfl, job, hjob, eq_of_beq hid, bne_iff_ne.mp hstatus⟩
  · rintro ⟨d, hd, hkind, rfl, rfl, job, hjob, hid, hstatus⟩
    refine ⟨_, List.mem_map_of_mem (List.mem_filter.mpr ⟨hd, ?_⟩), rfl, rfl⟩
    rw [hkind, Bool.and_eq_true]
    refine ⟨rfl, List.any_eq_true.mpr ⟨job, hjob, ?_⟩⟩
    rw [Bool.and_eq_true, beq_iff_eq, bne_iff_ne]
    exact ⟨hid, hstatus⟩

theorem live_nodup : tables.live.Nodup :=
  (List.Nodup.of_map _ tables.jobs_key).filter _

theorem mem_contractOwners {job owner : UnlockJob φ} {ownerKey : String} :
    owner ∈ contractOwners tables job ownerKey ↔ OwnsContract tables job ownerKey owner := by
  simp only [contractOwners, OwnsContract, List.mem_filter, Bool.and_eq_true, decide_eq_true_eq,
    beq_iff_eq, and_assoc]

/-- One owner is a list of one. -/
theorem contractOwners_eq_singleton {job owner : UnlockJob φ} {ownerKey : String} :
    contractOwners tables job ownerKey = [owner] ↔
      OwnsContract tables job ownerKey owner ∧
        ∀ other, OwnsContract tables job ownerKey other → other = owner := by
  simp only [← mem_contractOwners]
  constructor
  · intro h
    rw [h]
    exact ⟨List.mem_cons_self, fun other hother => List.mem_singleton.mp hother⟩
  · rintro ⟨hmem, hall⟩
    have hnodup : (contractOwners tables job ownerKey).Nodup := live_nodup.filter _
    exact List.perm_singleton.mp
      ((List.perm_ext_iff_of_nodup hnodup (List.nodup_singleton owner)).mpr fun other =>
        ⟨fun h => List.mem_singleton.mpr (hall other h), fun h => List.mem_singleton.mp h ▸ hmem⟩)

theorem mem_contractCalls :
    (∃ call ∈ contractCalls tables, call.producer = producer ∧ call.consumer = consumer) ↔
      ContractOwner tables consumer producer := by
  unfold contractCalls ContractOwner
  constructor
  · rintro ⟨call, hcall, rfl, rfl⟩
    obtain ⟨job, hjob, hcall⟩ := List.mem_flatMap.mp hcall
    obtain ⟨ownerKey, hkey, hcall⟩ := List.mem_flatMap.mp hcall
    split at hcall
    case h_1 owner howners =>
      rw [List.mem_singleton.mp hcall]
      obtain ⟨howns, hall⟩ := contractOwners_eq_singleton.mp howners
      exact ⟨job, hjob, rfl, ownerKey, hkey, owner, howns, rfl, hall⟩
    case h_2 => cases hcall
  · rintro ⟨job, hjob, rfl, ownerKey, hkey, owner, howns, rfl, hall⟩
    refine ⟨⟨owner.id, job.id, ⟨.contract, none⟩⟩, ?_, rfl, rfl⟩
    refine List.mem_flatMap.mpr ⟨job, hjob, List.mem_flatMap.mpr ⟨ownerKey, hkey, ?_⟩⟩
    rw [contractOwners_eq_singleton.mpr ⟨howns, hall⟩]
    exact List.mem_cons_self

theorem mem_fileOwnerCalls {waiter : UnlockJob φ} {hold : FileHold} :
    (∃ call ∈ fileOwnerCalls normalizeRepoPath tables waiter hold,
        call.producer = producer ∧ call.consumer = consumer) ↔
      waiter.id = consumer ∧ KeepsHold normalizeRepoPath tables hold producer := by
  unfold fileOwnerCalls KeepsHold
  dsimp only
  constructor
  · rintro ⟨call, hcall, rfl, rfl⟩
    rcases List.mem_append.mp hcall with hcall | hcall
    · cases hjob : hold.jobId with
      | none =>
        rw [hjob] at hcall
        cases hcall
      | some holderJob =>
        rw [hjob] at hcall
        rw [List.mem_singleton.mp hcall]
        exact ⟨rfl, Or.inl rfl⟩
    · obtain ⟨owner, howner, rfl⟩ := List.mem_map.mp hcall
      obtain ⟨hwriter, hkeeps⟩ := List.mem_filter.mp howner
      obtain ⟨howner, hwriter⟩ := List.mem_filter.mp hwriter
      rw [Bool.and_eq_true, decide_eq_true_eq] at hkeeps
      exact ⟨rfl, Or.inr ⟨owner, howner, rfl, hwriter, hkeeps⟩⟩
  · rintro ⟨rfl, hjob | ⟨owner, howner, rfl, hwriter, hkeeps⟩⟩
    · rw [hjob]
      exact ⟨_, List.mem_append_left _ List.mem_cons_self, rfl, rfl⟩
    · refine ⟨_, List.mem_append_right _ (List.mem_map_of_mem ?_), rfl, rfl⟩
      refine List.mem_filter.mpr ⟨List.mem_filter.mpr ⟨howner, hwriter⟩, ?_⟩
      rw [Bool.and_eq_true, decide_eq_true_eq]
      exact hkeeps

/-- The waiter of a recorded wait, as the id is a key. -/
theorem lookup_live_iff {waiter : UnlockJob φ} {id : ℕ} :
    lookup UnlockJob.id id tables.live = some waiter ↔ waiter ∈ tables.live ∧ waiter.id = id := by
  have hkey : (tables.live.map UnlockJob.id).Nodup :=
    tables.jobs_key.sublist (List.Sublist.map _ List.filter_sublist)
  constructor
  · exact fun h => ⟨lookup_mem h, lookup_key h⟩
  · rintro ⟨hmem, rfl⟩
    exact lookup_of_mem hkey hmem

theorem mem_queued {waiter : UnlockJob φ} :
    waiter ∈ tables.queued ↔ waiter ∈ tables.live ∧ waiter.status = .queued := by
  rw [UnlockTables.queued, List.mem_filter, beq_iff_eq]

theorem mem_fileCalls :
    (∃ call ∈ lockCalls normalizeRepoPath tables ++ waitCalls normalizeRepoPath tables,
        call.producer = producer ∧ call.consumer = consumer) ↔
      FileWait normalizeRepoPath tables consumer producer := by
  constructor
  · rintro ⟨call, hcall, hends⟩
    rcases List.mem_append.mp hcall with hcall | hcall
    · obtain ⟨waiter, hwaiter, hcall⟩ := List.mem_flatMap.mp hcall
      obtain ⟨lock, hlock, hcall⟩ := List.mem_flatMap.mp hcall
      split at hcall
      case isTrue hawaits =>
        obtain ⟨hid, hkeeps⟩ := (mem_fileOwnerCalls normalizeRepoPath).mp ⟨call, hcall, hends⟩
        exact ⟨waiter, hwaiter, hid, lock, Or.inl ⟨hlock, hawaits⟩, hkeeps⟩
      case isFalse => cases hcall
    · obtain ⟨wait, hwait, hcall⟩ := List.mem_flatMap.mp hcall
      split at hcall
      case h_1 => cases hcall
      case h_2 waiter hlookup =>
        obtain ⟨hlive, hid⟩ := lookup_live_iff.mp hlookup
        split at hcall
        case isTrue hqueued =>
          obtain ⟨hconsumer, hkeeps⟩ :=
            (mem_fileOwnerCalls normalizeRepoPath).mp ⟨call, hcall, hends⟩
          exact ⟨waiter, mem_queued.mpr ⟨hlive, hqueued⟩, hconsumer, wait.hold,
            Or.inr ⟨wait, hwait, hid.symm, rfl⟩, hkeeps⟩
        case isFalse => cases hcall
  · rintro ⟨waiter, hwaiter, hid, hold, hawaits, hkeeps⟩
    obtain ⟨call, hcall, hends⟩ := (mem_fileOwnerCalls normalizeRepoPath).mpr ⟨hid, hkeeps⟩
    refine ⟨call, ?_, hends⟩
    rcases hawaits with ⟨hlock, hawaits⟩ | ⟨wait, hwait, hwaiterId, rfl⟩
    · refine List.mem_append_left _ (List.mem_flatMap.mpr ⟨waiter, hwaiter, ?_⟩)
      refine List.mem_flatMap.mpr ⟨hold, hlock, ?_⟩
      rw [if_pos hawaits]
      exact hcall
    · obtain ⟨hlive, hqueued⟩ := mem_queued.mp hwaiter
      refine List.mem_append_right _ (List.mem_flatMap.mpr ⟨wait, hwait, ?_⟩)
      rw [lookup_live_iff.mpr ⟨hlive, hwaiterId.symm⟩]
      dsimp only
      rw [if_pos hqueued]
      exact hcall

/-- **The calls draw exactly the waits.** -/
theorem drawn_edgeCalls :
    Drawn tables.isLive (edgeCalls normalizeRepoPath tables) producer consumer ↔
      WaitsFor normalizeRepoPath tables consumer producer := by
  unfold Drawn WaitsFor edgeCalls
  rw [← mem_dependencyCalls, ← mem_contractCalls, ← mem_fileCalls]
  have hsplit : ∀ xs ys : List EdgeCall, (∃ call ∈ xs ++ ys, call.producer = producer ∧
      call.consumer = consumer) ↔ (∃ call ∈ xs, call.producer = producer ∧
        call.consumer = consumer) ∨ ∃ call ∈ ys, call.producer = producer ∧
          call.consumer = consumer := by
    intro xs ys
    simp only [List.mem_append, or_and_right, exists_or]
  rw [List.append_assoc, List.append_assoc, hsplit, hsplit]
  constructor
  · rintro ⟨hcall, hne, hlive⟩
    exact ⟨hne, hlive, hcall⟩
  · rintro ⟨hne, hlive, hcall⟩
    exact ⟨hcall, hne, hlive⟩

theorem graphOf_buildUnlockGraph (tables : UnlockTables φ) :
    GraphOf tables.isLive (edgeCalls normalizeRepoPath tables)
      (buildUnlockGraph normalizeRepoPath tables) := by
  have hempty : GraphOf tables.isLive [] (.empty (tables.live.map (·.id))) := GraphOf.empty _
  exact hempty.foldl (edgeCalls normalizeRepoPath tables)

theorem edge_ids {isLive : ℕ → Bool} {graph : UnlockGraph} {call : EdgeCall} :
    (graph.edge isLive call).ids = graph.ids := by
  unfold UnlockGraph.edge
  split
  · rfl
  · dsimp only
    split <;> rfl

theorem buildUnlockGraph_ids :
    (buildUnlockGraph normalizeRepoPath tables).ids = tables.live.map (·.id) := by
  have hfold : ∀ (calls : List EdgeCall) (graph : UnlockGraph),
      (calls.foldl (UnlockGraph.edge tables.isLive) graph).ids = graph.ids := by
    intro calls
    induction calls with
    | nil => exact fun _ => rfl
    | cons call calls ih => exact fun graph => (ih _).trans edge_ids
  exact hfold _ _

theorem isLive_iff {id : ℕ} : tables.isLive id = true ↔ id ∈ tables.live.map (·.id) := by
  rw [UnlockTables.isLive, List.any_eq_true, List.mem_map]
  simp only [beq_iff_eq]

/-- **`needs`** has the jobs that a job waits for. -/
theorem needs_iff : producer ∈ (buildUnlockGraph normalizeRepoPath tables).needs consumer ↔
    WaitsFor normalizeRepoPath tables consumer producer := by
  rw [(graphOf_buildUnlockGraph normalizeRepoPath tables).mem_needs, drawn_edgeCalls]

/-- **`outgoing`** has the jobs that wait for a live job. -/
theorem outgoing_iff :
    consumer ∈ ((buildUnlockGraph normalizeRepoPath tables).outgoing producer).map Prod.fst ↔
      WaitsFor normalizeRepoPath tables consumer producer ∧ tables.isLive producer = true := by
  rw [(graphOf_buildUnlockGraph normalizeRepoPath tables).mem_outgoing, drawn_edgeCalls]

end WaitsFor

end PosseClient
