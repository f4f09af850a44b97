/-
# Rankings with a memo, over runs

When the memo of `rankRunnableJobs` gives the ranking of the database as it is.

* `RankingWorld.write_graph`: a write that sends no wake and is not seen leaves the graph.
* `RankingRun.Sound`: the memo is older than the generation, or has the graph of the tables.
* `memo_ranking_fresh`: **in every run whose writes send a wake or are not seen**, each ranking with
  the memo is the ranking without one.
* `memo_ranking_stale`: a plain lease sends no wake, and the memo keeps the waits of its job.
-/
import PosseClient.Queue.EdgeFolds
import PosseClient.Queue.QuietWrites

namespace PosseClient

open Table

/-! ## 1. The tables after a quiet write -/

section Tables

variable {φ : Type*} {columns : ℕ → RankColumns φ} {normalizeRepoPath : φ → String}
  {texts : LaneTexts} {w : RankingWorld} {op : QueueWrite} {reconciled : List LaneWaitRow}

/-- The jobs that a lease leaves, as the ranking reads them. -/
theorem map_unlockJob_lease (leased : Option ℕ) (ownerId : String) (token : ℕ) (expiresAt : ℤ)
    (jobs : List Job) :
    (updateWhere (fun job => leased == some job.id && job.status == .queued)
        (fun job => job.lease ownerId token expiresAt) jobs).map (Job.unlockJob columns) =
      (jobs.map (Job.unlockJob columns)).map (UnlockJob.leaseAs leased) := by
  rw [updateWhere, List.map_map, List.map_map]
  refine List.map_congr_left fun job _ => ?_
  change _ = if leased = some job.id ∧ job.status = .queued then _ else _
  rw [Function.comp_apply]
  by_cases hleased : leased = some job.id ∧ job.status = .queued
  · rw [if_pos (by simpa using hleased), if_pos hleased]
    rfl
  · rw [if_neg (by simpa using hleased), if_neg hleased]

theorem drop_of_append {α : Type*} {xs ys added : List α} (h : ys = xs ++ added) :
    ys.drop xs.length = added := by
  rw [h, List.drop_left]

/-- **A quiet write** leases one job at most and adds the rows that it adds. -/
theorem quietTables_write (h : op.wakes w.db = 0) :
    QuietTables (w.tables columns) ((w.write texts op reconciled).tables columns)
      (op.leases w.db)
      ((op.exec w.db).workItemFileLocks.drop w.db.workItemFileLocks.length)
      ((op.exec w.db).jobFileLocks.drop w.db.jobFileLocks.length) := by
  have hquiet := QueueWrite.quiet w.jobs_key h
  obtain ⟨ownerId, token, expiresAt, hjobs⟩ := hquiet.jobs
  obtain ⟨workItemLocks, hworkItem, hworkItemHeld⟩ := hquiet.workItemFileLocks
  obtain ⟨jobLocks, hjob, hjobHeld⟩ := hquiet.jobFileLocks
  rw [drop_of_append hworkItem, drop_of_append hjob]
  refine ⟨?_, hquiet.dependencies, hworkItem, hjob, hworkItemHeld, hjobHeld⟩
  have htables : ((w.write texts op reconciled).tables columns).jobs =
      (op.exec w.db).jobs.map (Job.unlockJob columns) := rfl
  rw [htables, hjobs]
  exact map_unlockJob_lease _ ownerId token expiresAt w.db.jobs

/-! ## 2. The recorded waits after a quiet write -/

/-- A job is leased with its waits cleared, or with all waits as they were. -/
theorem QueueWrite.leases_clears (texts : LaneTexts) {db : Db} {jobId : ℕ}
    (h : op.leases db = some jobId) :
    (op.clears db = some jobId ∨ op.clears db = none) ∧ op.records texts db = none := by
  cases op with
  | acquireLease => exact ⟨Or.inr rfl, rfl⟩
  | acquireLeaseWithWriteLocks env clock id ownerId durationMs conflict =>
    unfold QueueWrite.leases at h
    unfold QueueWrite.clears QueueWrite.records
    refine ⟨Or.inl h, ?_⟩
    obtain ⟨token, htoken, -⟩ := Option.map_eq_some_iff.mp h
    dsimp only
    rw [htoken]
    rfl
  | _ => cases h

variable (columns normalizeRepoPath texts w op) in
/-- The calls of the tables, with the waits that the operation leaves. -/
def callsAfter : List EdgeCall :=
  dependencyCalls (w.tables columns) ++ contractCalls (w.tables columns) ++
    lockCalls normalizeRepoPath (w.tables columns) ++
    ((op.laneWaits texts w.db w.laneWaits).map LaneWaitRow.toFileLaneWait).flatMap
      (laneWaitCalls normalizeRepoPath (w.tables columns))

/-- Waits that are as they were draw the calls that they drew. -/
theorem callsAfter_of_same
    (h : (op.laneWaits texts w.db w.laneWaits).map LaneWaitRow.toFileLaneWait =
      w.laneWaits.map LaneWaitRow.toFileLaneWait) :
    callsAfter columns normalizeRepoPath texts w op =
      edgeCalls normalizeRepoPath (w.tables columns) := by
  rw [callsAfter, h, edgeCalls, waitCalls_eq]
  rfl

/-- **Cleared waits** are waits for locks, or of the job that is leased. -/
theorem alike_cleared (h : op.Unseen columns normalizeRepoPath texts w) {jobId : ℕ}
    (hclears : op.clears w.db = some jobId) :
    Alike (w.tables columns).isLive (edgeCalls normalizeRepoPath (w.tables columns))
      (callsAfter columns normalizeRepoPath texts w op) := by
  have hwaits : (op.laneWaits texts w.db w.laneWaits).map LaneWaitRow.toFileLaneWait =
      (w.laneWaits.map LaneWaitRow.toFileLaneWait).filter
        (fun wait => !(wait.waiterJobId == jobId)) := by
    unfold QueueWrite.laneWaits
    rw [hclears, List.filter_map]
    rfl
  rw [callsAfter, hwaits, edgeCalls, waitCalls_eq]
  refine alike_filter fun wait hwait hcleared call hcall => ?_
  obtain ⟨row, hrow, rfl⟩ := List.mem_map.mp hwait
  have hid : row.waiterJobId = jobId := by simpa using hcleared
  obtain ⟨waiter, hwaiter, hwaiterId, hcall⟩ := laneWaitCalls_queued hcall
  have hjobId : waiter.id = jobId := hwaiterId.trans hid
  cases hleases : op.leases w.db with
  | some leased =>
    have hsame : leased = jobId := by
      rcases (QueueWrite.leases_clears texts hleases).1 with hsome | hnone
      · exact Option.some.inj (hsome.symm.trans hclears)
      · cases hnone.symm.trans hclears
    subst hsame
    have hjob : op.leases w.db = some waiter.id := hleases.trans (congrArg some hjobId.symm)
    exact Or.inl (leased_calls h.leased hwaiter hjob
      (Or.inr ⟨row.toFileLaneWait, hwait, hwaiterId.symm, rfl⟩) hcall)
  | none =>
    have hhas := h.cleared hleases jobId hclears row hrow hid waiter hwaiter hjobId
    rw [← hjobId] at hhas
    exact (hhas.calls hcall).imp_right (List.mem_append_right _)

/-- **A recorded wait** is in the graph, or has the row of its key. -/
theorem alike_recorded (h : op.Unseen columns normalizeRepoPath texts w) {detail : LaneWaitDetail}
    (hclears : op.clears w.db = none) (hrecords : op.records texts w.db = some detail) :
    Alike (w.tables columns).isLive (edgeCalls normalizeRepoPath (w.tables columns))
      (callsAfter columns normalizeRepoPath texts w op) := by
  have hwaits : op.laneWaits texts w.db w.laneWaits =
      recordFileLaneWait texts w.db w.laneWaits detail := by
    unfold QueueWrite.laneWaits
    rw [hclears, hrecords]
  have hstays : recordFileLaneWait texts w.db w.laneWaits detail = w.laneWaits →
      Alike (w.tables columns).isLive (edgeCalls normalizeRepoPath (w.tables columns))
        (callsAfter columns normalizeRepoPath texts w op) := by
    intro hsame
    rw [callsAfter_of_same (by rw [hwaits, hsame])]
    exact Alike.refl _
  unfold recordFileLaneWait at hstays hwaits
  cases hdescriptor : normalizedWaitDescriptor texts detail with
  | none => exact hstays (by rw [hdescriptor])
  | some descriptor =>
    simp only [hdescriptor] at hstays hwaits
    cases hqueued : waiterIsQueued w.db descriptor with
    | false => exact hstays (by rw [if_pos hqueued])
    | true =>
      rw [hqueued, if_neg Bool.noConfusion] at hwaits
      have hstored : storedWait texts w.db detail = some descriptor := by
        rw [storedWait, hdescriptor, Option.filter_some, if_pos hqueued]
      obtain ⟨hsame, hnew⟩ := h.recorded detail hrecords descriptor hstored
      unfold storeLaneWait at hwaits
      dsimp only at hwaits
      cases hexisting : w.laneWaits.find? (LaneWaitRow.isAt descriptor) with
      | none =>
        rw [hexisting] at hwaits
        have hnone : ∀ row ∈ w.laneWaits, row.isAt descriptor = false := fun row hrow =>
          Bool.not_eq_true _ ▸ List.find?_eq_none.mp hexisting row hrow
        have hadded : callsAfter columns normalizeRepoPath texts w op =
            edgeCalls normalizeRepoPath (w.tables columns) ++
              laneWaitCalls normalizeRepoPath (w.tables columns)
                (descriptor.row "").toFileLaneWait := by
          rw [callsAfter, hwaits, List.map_append, List.flatMap_append, List.map_singleton,
            List.flatMap_singleton, edgeCalls, waitCalls_eq, ← List.append_assoc]
          rfl
        rw [hadded]
        have hmade : ∀ call ∈ laneWaitCalls normalizeRepoPath (w.tables columns)
              (descriptor.row "").toFileLaneWait, call.producer = call.consumer ∨
            call ∈ edgeCalls normalizeRepoPath (w.tables columns) := by
          intro call hcall
          obtain ⟨waiter, -, hwaiterId, hcall⟩ := laneWaitCalls_queued hcall
          have hhas := hnew hnone
          have hid : waiter.id = descriptor.waiterJobId := hwaiterId
          rw [← hid] at hhas
          refine (hhas.calls hcall).imp_right fun hmem => ?_
          rw [edgeCalls, List.append_assoc]
          exact List.mem_append_right _ hmem
        have hcalls := @alike_insert (w.tables columns).isLive _ _ hmade []
        rwa [List.append_nil, List.append_nil] at hcalls
      | some old =>
        rw [hexisting] at hwaits
        dsimp only at hwaits
        split at hwaits
        case isTrue =>
          rw [callsAfter_of_same (by rw [hwaits])]
          exact Alike.refl _
        case isFalse =>
          rw [callsAfter_of_same ?_]
          · exact Alike.refl _
          rw [hwaits, updateWhere, List.map_map]
          refine List.map_congr_left fun row hrow => ?_
          rw [Function.comp_apply]
          cases hat : row.isAt descriptor with
          | true =>
            rw [if_pos rfl]
            exact (hsame row hrow hat).symm
          | false => rw [if_neg Bool.false_ne_true]

/-- **The recorded waits** draw nothing new and take nothing away. -/
theorem alike_laneWaits (h : op.Unseen columns normalizeRepoPath texts w) :
    Alike (w.tables columns).isLive (edgeCalls normalizeRepoPath (w.tables columns))
      (callsAfter columns normalizeRepoPath texts w op) := by
  cases hclears : op.clears w.db with
  | some jobId => exact alike_cleared h hclears
  | none =>
    cases hrecords : op.records texts w.db with
    | some detail => exact alike_recorded h hclears hrecords
    | none =>
      have hsame : op.laneWaits texts w.db w.laneWaits = w.laneWaits := by
        unfold QueueWrite.laneWaits
        rw [hclears, hrecords]
      rw [callsAfter_of_same (by rw [hsame])]
      exact Alike.refl _

/-- A lease adds no waits. -/
theorem laneWaits_of_leases (hleases : op.leases w.db ≠ none) :
    ∀ row ∈ op.laneWaits texts w.db w.laneWaits, row ∈ w.laneWaits := by
  obtain ⟨jobId, hjob⟩ := Option.ne_none_iff_exists'.mp hleases
  obtain ⟨hclears, hrecords⟩ := QueueWrite.leases_clears texts hjob
  unfold QueueWrite.laneWaits
  rw [hrecords]
  rcases hclears with hclears | hclears
  · rw [hclears]
    exact fun row hrow => List.mem_of_mem_filter hrow
  · rw [hclears]
    exact fun row hrow => hrow

/-- **A write that sends no wake and is not seen** leaves the graph as it is. -/
theorem RankingWorld.write_graph (hquiet : op.wakes w.db = 0)
    (h : op.Unseen columns normalizeRepoPath texts w) :
    buildUnlockGraph normalizeRepoPath ((w.write texts op reconciled).tables columns) =
      buildUnlockGraph normalizeRepoPath (w.tables columns) := by
  have hrows : ((w.write texts op reconciled).tables columns).fileLaneWaits =
      (op.laneWaits texts w.db w.laneWaits).map LaneWaitRow.toFileLaneWait := by
    change (if op.wakes w.db = 0 then op.laneWaits texts w.db w.laneWaits else reconciled).map _ = _
    rw [if_pos hquiet]
  refine (quietTables_write hquiet).graph_eq h.leased h.locked ?_ ?_
  · rw [hrows]
    exact alike_laneWaits h
  · intro hleases wait hwait
    rw [hrows] at hwait
    obtain ⟨row, hrow, rfl⟩ := List.mem_map.mp hwait
    exact List.mem_map_of_mem (laneWaits_of_leases hleases row hrow)

end Tables

/-! ## 3. Runs -/

section Runs

variable {φ : Type*} {texts : LaneTexts} {columns : ℕ → RankColumns φ}
  {normalizeRepoPath : φ → String} {κ : Type*} [LinearOrder κ] {collationKey : String → κ}

/-- **The memo is older than the generation**, or has the graph of the tables. -/
def RankingRun.Sound (columns : ℕ → RankColumns φ) (normalizeRepoPath : φ → String)
    (s : RankingRun) : Prop :=
  ∀ memo ∈ s.memo, memo.generation ≤ s.world.generation ∧
    (memo.generation = s.world.generation →
      memo.graph = buildUnlockGraph normalizeRepoPath (s.world.tables columns))

/-- A call has the graph of the tables. -/
theorem RankingRun.Sound.memoAt {s : RankingRun} (h : s.Sound columns normalizeRepoPath) :
    memoAt columns normalizeRepoPath s.world s.memo =
      ⟨s.world.generation, buildUnlockGraph normalizeRepoPath (s.world.tables columns)⟩ := by
  unfold PosseClient.memoAt
  cases hmemo : s.memo with
  | none => rfl
  | some memo =>
    dsimp only
    split
    case isTrue => rfl
    case isFalse hsame =>
      rw [not_not] at hsame
      rw [← (h memo hmemo).2 hsame, ← hsame]

theorem RankingRun.Sound.step {s : RankingRun} {op : RankingOp φ}
    (h : s.Sound columns normalizeRepoPath)
    (hcovered : op.Covered texts columns normalizeRepoPath s) :
    (rankingStep texts columns normalizeRepoPath collationKey s op).Sound columns
      normalizeRepoPath := by
  cases op with
  | write op reconciled =>
    intro memo hmemo
    obtain ⟨hle, hgraph⟩ := h memo hmemo
    refine ⟨hle.trans (Nat.le_add_right _ _), fun hsame => ?_⟩
    -- the generation did not move, so the write sent no wake
    have hwakes : op.wakes s.world.db = 0 := by
      have hsame' : memo.generation = s.world.generation + op.wakes s.world.db := hsame
      omega
    have hgeneration : memo.generation = s.world.generation := by
      have hsame' : memo.generation = s.world.generation + op.wakes s.world.db := hsame
      omega
    rw [hgraph hgeneration]
    exact (RankingWorld.write_graph hwakes (hcovered.resolve_left (not_not.mpr hwakes))).symm
  | rank nowMs candidates =>
    intro memo hmemo
    have hmemo' : PosseClient.memoAt columns normalizeRepoPath s.world s.memo = memo :=
      Option.some.inj hmemo
    rw [h.memoAt] at hmemo'
    subst hmemo'
    exact ⟨le_rfl, fun _ => rfl⟩

end Runs

/-- **The ranking with a memo is the ranking without one**, after every run of writes and rankings
whose writes send a wake or are not seen. -/
theorem memo_ranking_fresh {φ : Type*} (texts : LaneTexts) (columns : ℕ → RankColumns φ)
    (normalizeRepoPath : φ → String) {κ : Type*} [LinearOrder κ] (collationKey : String → κ)
    (w : RankingWorld) (ops : List (RankingOp φ))
    (hcovered : Runs.Meets (rankingStep texts columns normalizeRepoPath collationKey)
      (fun s op => op.Covered texts columns normalizeRepoPath s) ⟨w, none⟩ ops)
    (nowMs : ℤ) (candidates : List (UnlockJob φ)) :
    let s := Runs.run (rankingStep texts columns normalizeRepoPath collationKey) ⟨w, none⟩ ops
    (rankRunnableJobsMemo columns normalizeRepoPath collationKey s.world s.memo nowMs
        candidates).2 =
      rankRunnableJobs collationKey normalizeRepoPath (s.world.tables columns) nowMs
        candidates := by
  have hstart : (⟨w, none⟩ : RankingRun).Sound columns normalizeRepoPath := by
    intro memo hmemo
    cases hmemo
  have hsound := Runs.run_invariant (fun s op hs hop => RankingRun.Sound.step hs hop) hstart
    hcovered
  intro s
  rw [rankRunnableJobsMemo, hsound.memoAt]
  rfl

/-! Two queued jobs of two work items plan to write one file, which the first work item has
locked. -/

def lockedFileWorld : RankingWorld where
  db := {
    jobs := [
      { id := 1, workItemId := some 1, jobType := .dev, status := .queued },
      { id := 2, workItemId := some 2, jobType := .dev, status := .queued }]
    workItemFileLocks := [
      { workItemId := 1, path := "a.js", lockKind := .file, sourceJobId := some 1 }] }
  jobs_key := by decide

def writesOneFile : ℕ → RankColumns String := fun _ => { payload := { filesToModify := ["a.js"] } }

def plainTexts : LaneTexts := ⟨id, fun _ _ => ""⟩

/-- The first job, as a candidate. -/
def firstWriter : UnlockJob String where
  id := 1
  workItemId := some 1
  jobType := .dev
  status := .queued
  payload := { filesToModify := ["a.js"] }

theorem rankCandidates_one {φ κ : Type*} [LinearOrder κ] (collationKey : String → κ)
    (graph : UnlockGraph) (nowMs : ℤ) (job : UnlockJob φ) :
    rankCandidates collationKey graph nowMs [job] = [rankJob graph nowMs job] := by
  rw [rankCandidates, List.map_singleton, List.mergeSort_singleton]

/-- The waiting job is canceled between two rankings. -/
theorem memo_ranking_fresh_canceled :
    let s := Runs.run (rankingStep plainTexts writesOneFile id id) ⟨lockedFileWorld, none⟩
      [.rank 0 [firstWriter], .write (.updateJobStatus ⟨0, 0, 0⟩ 2 .canceled {}) []]
    (rankRunnableJobsMemo writesOneFile id id s.world s.memo 0 [firstWriter]).2 =
      rankRunnableJobs id id (s.world.tables writesOneFile) 0 [firstWriter] :=
  memo_ranking_fresh plainTexts writesOneFile id id lockedFileWorld
    [.rank 0 [firstWriter], .write (.updateJobStatus ⟨0, 0, 0⟩ 2 .canceled {}) []]
    ⟨trivial, Or.inl (by decide +kernel), trivial⟩ 0 [firstWriter]

/-- **A memo outlives the state of the queue**: a plain lease of the waiting job sends no wake, so
the next ranking credits the first job with a job that does not wait any more. -/
theorem memo_ranking_stale :
    let s := Runs.run (rankingStep plainTexts writesOneFile id id) ⟨lockedFileWorld, none⟩
      [.rank 0 [firstWriter], .write (.acquireLease ⟨0, 0, 0⟩ 2 "worker" 900000) []]
    let ranking := (rankRunnableJobsMemo writesOneFile id id s.world s.memo 0 [firstWriter]).2
    let fresh := rankRunnableJobs id id (s.world.tables writesOneFile) 0 [firstWriter]
    ranking ≠ fresh ∧ ranking.map (·.scheduling.impact) = [3] ∧
      fresh.map (·.scheduling.impact) = [0] := by
  intro s ranking fresh
  have hranking : ranking.map (·.scheduling.impact) = [3] := by
    rw [show ranking = _ from rankCandidates_one id _ 0 firstWriter]
    decide +kernel
  have hfresh : fresh.map (·.scheduling.impact) = [0] := by
    rw [show fresh = _ from rankCandidates_one id _ 0 firstWriter]
    decide +kernel
  refine ⟨fun hsame => ?_, hranking, hfresh⟩
  rw [hsame, hfresh] at hranking
  exact absurd hranking (by decide)

end PosseClient
