/-
# Calls of `edge` that change nothing

The unlock graph is a fold of `edge` over a list of calls. A call whose edge and reason the graph has
already, or that `edge` leaves out, changes nothing; so two lists of calls give one graph where they
differ by such calls only.

* `UnlockGraph.Has`: a graph that a call does not change.
* `Alike`: two lists of calls that take every graph to the same graph.
* `QuietTables.graph_eq`: a lease, added locks and changed waits that leave the graph.
-/
import PosseClient.Queue.RankingMemo

namespace PosseClient

open Table KeyedMap

/-! ## 1. What a graph has -/

section Has

variable {isLive : ℕ → Bool} {graph : UnlockGraph} {call other : EdgeCall}

/-- The consumers of a producer are keys. -/
def UnlockGraph.Keyed (graph : UnlockGraph) : Prop :=
  ∀ producer, ((graph.outgoing producer).map Prod.fst).Nodup

/-- `edge` leaves the call out, or the graph has its edge with its reason. -/
def UnlockGraph.Has (isLive : ℕ → Bool) (graph : UnlockGraph) (call : EdgeCall) : Prop :=
  (call.producer = call.consumer ∨ isLive call.consumer = false) ∨
    call.producer ∈ graph.needs call.consumer ∧ (isLive call.producer = true →
      ∃ reasons, (call.consumer, reasons) ∈ graph.outgoing call.producer ∧ call.reason ∈ reasons)

theorem UnlockGraph.keyed_empty (ids : List ℕ) : (UnlockGraph.empty ids).Keyed :=
  fun _ => List.nodup_nil

theorem UnlockGraph.Keyed.edge (h : graph.Keyed) (call : EdgeCall) :
    (graph.edge isLive call).Keyed := by
  intro producer
  unfold UnlockGraph.edge
  split
  case isTrue => exact h producer
  case isFalse =>
    dsimp only
    split
    case isTrue => exact h producer
    case isFalse =>
      dsimp only
      by_cases hp : producer = call.producer
      · subst hp
        rw [Function.update_self]
        exact nodup_put (h _)
      · rw [Function.update_of_ne hp]
        exact h producer

theorem UnlockGraph.Keyed.foldl (h : graph.Keyed) (calls : List EdgeCall) :
    (calls.foldl (UnlockGraph.edge isLive) graph).Keyed := by
  induction calls generalizing graph with
  | nil => exact h
  | cons call calls ih => exact ih (h.edge call)

/-- **A call that the graph has** changes nothing. -/
theorem UnlockGraph.Has.edge_eq (hkeyed : graph.Keyed) (h : graph.Has isLive call) :
    graph.edge isLive call = graph := by
  unfold UnlockGraph.edge
  rcases h with hskip | ⟨hneeds, hreason⟩
  · rw [if_pos hskip]
  split
  case isTrue => rfl
  case isFalse =>
    dsimp only
    rw [if_pos hneeds, Function.update_eq_self]
    split
    case isTrue => rfl
    case isFalse hlive =>
      obtain ⟨reasons, hmem, hin⟩ := hreason (Bool.not_eq_false _ ▸ hlive)
      have hlookup : lookup Prod.fst call.consumer (graph.outgoing call.producer) =
          some (call.consumer, reasons) := lookup_of_mem (hkeyed _) hmem
      rw [hlookup, Option.map_some, Option.getD_some, if_pos hin, put_eq_self (hkeyed _) hmem,
        Function.update_eq_self]

/-- The graph has a call once it was made. -/
theorem UnlockGraph.has_edge : (graph.edge isLive call).Has isLive call := by
  unfold UnlockGraph.edge
  split
  case isTrue hskip => exact Or.inl hskip
  case isFalse =>
    dsimp only
    refine Or.inr ?_
    split
    case isTrue hdead =>
      refine ⟨?_, fun hlive => absurd (hdead.symm.trans hlive) Bool.false_ne_true⟩
      dsimp only
      rw [Function.update_self, mem_setAdd]
      exact Or.inr rfl
    case isFalse =>
      dsimp only
      rw [Function.update_self, Function.update_self, mem_setAdd]
      refine ⟨Or.inr rfl, fun _ => ⟨_, mem_put_self, ?_⟩⟩
      split
      case isTrue hin => exact hin
      case isFalse => exact List.mem_append_right _ List.mem_cons_self

/-- What the graph has, it keeps. -/
theorem UnlockGraph.Has.edge (hkeyed : graph.Keyed) (h : graph.Has isLive call) :
    (graph.edge isLive other).Has isLive call := by
  rcases h with hskip | ⟨hneeds, hreason⟩
  · exact Or.inl hskip
  refine Or.inr ?_
  have hneeds' : call.producer ∈ Function.update graph.needs other.consumer
      (if other.producer ∈ graph.needs other.consumer then graph.needs other.consumer
        else graph.needs other.consumer ++ [other.producer]) call.consumer := by
    by_cases hc : call.consumer = other.consumer
    · rw [hc, Function.update_self, mem_setAdd, ← hc]
      exact Or.inl hneeds
    · rwa [Function.update_of_ne hc]
  unfold UnlockGraph.edge
  split
  case isTrue => exact ⟨hneeds, hreason⟩
  case isFalse =>
    dsimp only
    split
    case isTrue => exact ⟨hneeds', hreason⟩
    case isFalse =>
      refine ⟨hneeds', fun hlive => ?_⟩
      obtain ⟨reasons, hmem, hin⟩ := hreason hlive
      dsimp only
      by_cases hp : call.producer = other.producer
      · rw [hp] at hmem ⊢
        rw [Function.update_self]
        by_cases hc : call.consumer = other.consumer
        · -- the entry is replaced by one with the reasons it had
          rw [hc] at hmem ⊢
          have hlookup : lookup Prod.fst other.consumer (graph.outgoing other.producer) =
              some (other.consumer, reasons) := lookup_of_mem (hkeyed _) hmem
          rw [hlookup, Option.map_some, Option.getD_some]
          refine ⟨_, mem_put_self, ?_⟩
          split
          case isTrue => exact hin
          case isFalse => exact List.mem_append_left _ hin
        · exact ⟨reasons, mem_put_of_mem hmem hc, hin⟩
      · rw [Function.update_of_ne hp]
        exact ⟨reasons, hmem, hin⟩

theorem UnlockGraph.Has.foldl (hkeyed : graph.Keyed) (h : graph.Has isLive call)
    (calls : List EdgeCall) :
    (calls.foldl (UnlockGraph.edge isLive) graph).Has isLive call := by
  induction calls generalizing graph with
  | nil => exact h
  | cons other calls ih => exact ih (hkeyed.edge other) (h.edge hkeyed)

/-- The graph has every call that was made. -/
theorem UnlockGraph.has_of_mem (hkeyed : graph.Keyed) {calls : List EdgeCall} (h : call ∈ calls) :
    (calls.foldl (UnlockGraph.edge isLive) graph).Has isLive call := by
  induction calls generalizing graph with
  | nil => cases h
  | cons other calls ih =>
    rw [List.foldl_cons]
    rcases List.mem_cons.mp h with rfl | h
    · exact UnlockGraph.Has.foldl (hkeyed.edge call) UnlockGraph.has_edge calls
    · exact ih (hkeyed.edge other) h

/-- **Calls that the graph has** change nothing. -/
theorem UnlockGraph.foldl_eq_self (hkeyed : graph.Keyed) {calls : List EdgeCall}
    (h : ∀ call ∈ calls, graph.Has isLive call) :
    calls.foldl (UnlockGraph.edge isLive) graph = graph := by
  induction calls with
  | nil => rfl
  | cons call calls ih =>
    rw [List.foldl_cons, (h call List.mem_cons_self).edge_eq hkeyed]
    exact ih fun other hother => h other (List.mem_cons_of_mem _ hother)

end Has

/-! ## 2. Lists of calls that draw one graph -/

section Alike

variable {isLive : ℕ → Bool} {before before' after after' more : List EdgeCall}

/-- **Two lists of calls** take every graph to the same graph. -/
def Alike (isLive : ℕ → Bool) (calls calls' : List EdgeCall) : Prop :=
  ∀ graph : UnlockGraph, graph.Keyed →
    calls.foldl (UnlockGraph.edge isLive) graph = calls'.foldl (UnlockGraph.edge isLive) graph

theorem Alike.refl (calls : List EdgeCall) : Alike isLive calls calls := fun _ _ => rfl

theorem Alike.trans (h : Alike isLive before more) (h' : Alike isLive more after) :
    Alike isLive before after :=
  fun graph hkeyed => (h graph hkeyed).trans (h' graph hkeyed)

theorem Alike.append (h : Alike isLive before before') (h' : Alike isLive after after') :
    Alike isLive (before ++ after) (before' ++ after') := by
  intro graph hkeyed
  rw [List.foldl_append, List.foldl_append, h graph hkeyed]
  exact h' _ (hkeyed.foldl before')

theorem Alike.flatMap {α : Type*} {xs : List α} {f g : α → List EdgeCall}
    (h : ∀ x ∈ xs, Alike isLive (f x) (g x)) : Alike isLive (xs.flatMap f) (xs.flatMap g) := by
  induction xs with
  | nil => exact Alike.refl []
  | cons x xs ih =>
    rw [List.flatMap_cons, List.flatMap_cons]
    exact (h x List.mem_cons_self).append (ih fun y hy => h y (List.mem_cons_of_mem _ hy))

/-- Calls of a job for itself. -/
theorem alike_nil (h : ∀ call ∈ more, call.producer = call.consumer) : Alike isLive more [] := by
  intro graph hkeyed
  exact UnlockGraph.foldl_eq_self hkeyed fun call hcall => Or.inl (Or.inl (h call hcall))

/-- A graph has the calls that were made, and those of a job for itself. -/
theorem has_after {graph : UnlockGraph} (hkeyed : graph.Keyed) {call : EdgeCall}
    (h : call.producer = call.consumer ∨ call ∈ before) :
    (before.foldl (UnlockGraph.edge isLive) graph).Has isLive call := by
  rcases h with hself | hmem
  · exact Or.inl (Or.inl hself)
  · exact UnlockGraph.has_of_mem hkeyed hmem

/-- **Calls that were made before** can be made again, or not. -/
theorem alike_insert
    (h : ∀ call ∈ more, call.producer = call.consumer ∨ call ∈ before) (after : List EdgeCall) :
    Alike isLive (before ++ after) (before ++ (more ++ after)) := by
  intro graph hkeyed
  rw [List.foldl_append, List.foldl_append, List.foldl_append,
    UnlockGraph.foldl_eq_self (hkeyed.foldl before) fun call hcall =>
      has_after hkeyed (h call hcall)]

/-- **Rows whose calls were made before** can be left out. -/
theorem alike_filter {α : Type*} {rows : List α} {f : α → List EdgeCall} {p : α → Bool}
    (h : ∀ row ∈ rows, p row = false → ∀ call ∈ f row,
      call.producer = call.consumer ∨ call ∈ before) :
    Alike isLive (before ++ rows.flatMap f) (before ++ (rows.filter p).flatMap f) := by
  have hrows : ∀ (rows : List α) (graph : UnlockGraph), graph.Keyed →
      (∀ row ∈ rows, p row = false → ∀ call ∈ f row, graph.Has isLive call) →
      (rows.flatMap f).foldl (UnlockGraph.edge isLive) graph =
        ((rows.filter p).flatMap f).foldl (UnlockGraph.edge isLive) graph := by
    intro rows
    induction rows with
    | nil => exact fun _ _ _ => rfl
    | cons row rows ih =>
      intro graph hkeyed hhas
      rw [List.flatMap_cons, List.foldl_append]
      cases hp : p row with
      | true =>
        rw [List.filter_cons_of_pos hp, List.flatMap_cons, List.foldl_append]
        refine ih _ (hkeyed.foldl _) fun other hother hpo call hcall => ?_
        exact (hhas other (List.mem_cons_of_mem _ hother) hpo call hcall).foldl hkeyed _
      | false =>
        rw [List.filter_cons_of_neg (by rw [hp]; exact Bool.false_ne_true),
          UnlockGraph.foldl_eq_self hkeyed (hhas row List.mem_cons_self hp)]
        exact ih graph hkeyed fun other hother => hhas other (List.mem_cons_of_mem _ hother)
  intro graph hkeyed
  rw [List.foldl_append, List.foldl_append]
  exact hrows rows _ (hkeyed.foldl before) fun row hrow hp call hcall =>
    has_after hkeyed (h row hrow hp call hcall)

end Alike

/-! ## 3. The calls for a file -/

section FileCalls

variable {φ : Type*} {normalizeRepoPath : φ → String} {tables : UnlockTables φ}
  {waiter : UnlockJob φ} {hold : FileHold} {call : EdgeCall}

/-- A call for a hold names a job that keeps it. -/
theorem fileOwnerCalls_shape
    (h : call ∈ fileOwnerCalls normalizeRepoPath tables waiter hold) :
    KeepsHold normalizeRepoPath tables hold call.producer ∧
      call = ⟨call.producer, waiter.id, ⟨.file, some hold.row.path⟩⟩ := by
  refine ⟨((mem_fileOwnerCalls normalizeRepoPath).mp ⟨call, h, rfl, rfl⟩).2, ?_⟩
  unfold fileOwnerCalls at h
  dsimp only at h
  rcases List.mem_append.mp h with h | h
  · cases hjob : hold.jobId with
    | none =>
      rw [hjob] at h
      cases h
    | some holderJob =>
      rw [hjob] at h
      rw [List.mem_singleton.mp h]
  · obtain ⟨owner, -, rfl⟩ := List.mem_map.mp h
    rfl

/-- Where the calls have the waits of a job, they have its calls. -/
theorem HasWaits.calls {calls : List EdgeCall}
    (h : HasWaits normalizeRepoPath tables calls waiter.id hold)
    (hcall : call ∈ fileOwnerCalls normalizeRepoPath tables waiter hold) :
    call.producer = call.consumer ∨ call ∈ calls := by
  obtain ⟨hkeeps, hshape⟩ := fileOwnerCalls_shape hcall
  rcases h call.producer hkeeps with hself | hmem
  · rw [hshape]
    exact Or.inl hself
  · rw [hshape]
    exact Or.inr hmem

variable (normalizeRepoPath tables) in
/-- The calls for a recorded wait. -/
def laneWaitCalls (wait : FileLaneWait) : List EdgeCall :=
  match lookup UnlockJob.id wait.waiterJobId tables.live with
  | none => []
  | some waiter =>
    if waiter.status = .queued then fileOwnerCalls normalizeRepoPath tables waiter wait.hold
    else []

theorem waitCalls_eq : waitCalls normalizeRepoPath tables =
    tables.fileLaneWaits.flatMap (laneWaitCalls normalizeRepoPath tables) := rfl

/-- A recorded wait with calls is one of a queued job. -/
theorem laneWaitCalls_queued {wait : FileLaneWait}
    (h : call ∈ laneWaitCalls normalizeRepoPath tables wait) :
    ∃ waiter ∈ tables.queued, waiter.id = wait.waiterJobId ∧
      call ∈ fileOwnerCalls normalizeRepoPath tables waiter wait.hold := by
  unfold laneWaitCalls at h
  split at h
  case h_1 => cases h
  case h_2 waiter hlookup =>
    obtain ⟨hlive, hid⟩ := lookup_live_iff.mp hlookup
    split at h
    case isTrue hqueued => exact ⟨waiter, mem_queued.mpr ⟨hlive, hqueued⟩, hid, h⟩
    case isFalse => cases h

theorem heldLocks_eq : heldLocks tables =
    (tables.workItemFileLocks.filter (·.releaseReason.isNone)).map WorkItemFileLock.hold ++
      (tables.jobFileLocks.filter (·.releaseReason.isNone)).map JobFileLock.hold := rfl

variable (normalizeRepoPath tables) in
/-- The calls of a waiter for locks. -/
def lockCallsFor (waiter : UnlockJob φ) (locks : List FileHold) : List EdgeCall :=
  locks.flatMap fun lock =>
    if lock.workItemId ≠ waiter.workItemId ∧
        touchesRow (scopeRows normalizeRepoPath waiter) lock.row then
      fileOwnerCalls normalizeRepoPath tables waiter lock
    else []

theorem lockCalls_eq : lockCalls normalizeRepoPath tables =
    tables.queued.flatMap fun waiter =>
      lockCallsFor normalizeRepoPath tables waiter (heldLocks tables) := rfl

theorem workItemLockCalls_eq : workItemLockCalls normalizeRepoPath tables waiter =
    lockCallsFor normalizeRepoPath tables waiter
      ((tables.workItemFileLocks.filter (·.releaseReason.isNone)).map WorkItemFileLock.hold) := by
  unfold workItemLockCalls lockCallsFor
  rw [List.flatMap_map]

theorem lockCallsFor_append (locks more : List FileHold) :
    lockCallsFor normalizeRepoPath tables waiter (locks ++ more) =
      lockCallsFor normalizeRepoPath tables waiter locks ++
        lockCallsFor normalizeRepoPath tables waiter more :=
  List.flatMap_append

theorem mem_lockCallsFor {locks : List FileHold}
    (h : call ∈ lockCallsFor normalizeRepoPath tables waiter locks) :
    ∃ lock ∈ locks, lock.workItemId ≠ waiter.workItemId ∧
      touchesRow (scopeRows normalizeRepoPath waiter) lock.row = true ∧
      call ∈ fileOwnerCalls normalizeRepoPath tables waiter lock := by
  obtain ⟨lock, hlock, hcall⟩ := List.mem_flatMap.mp h
  split at hcall
  case isTrue hmeets => exact ⟨lock, hlock, hmeets.1, hmeets.2, hcall⟩
  case isFalse => cases hcall

end FileCalls

/-! ## 4. A lease and added locks -/

section Quiet

variable {φ : Type*} {normalizeRepoPath : φ → String}

/-- A row of `jobs` after a lease of the job, if one was leased. -/
def UnlockJob.leaseAs (leased : Option ℕ) (job : UnlockJob φ) : UnlockJob φ :=
  if leased = some job.id ∧ job.status = .queued then { job with status := .leased } else job

/-- **What a write without a wake leaves of the tables**, the recorded waits apart. -/
structure QuietTables (tables tables' : UnlockTables φ) (leased : Option ℕ)
    (workItemLocks : List WorkItemFileLock) (jobLocks : List JobFileLock) : Prop where
  jobs : tables'.jobs = tables.jobs.map (UnlockJob.leaseAs leased)
  dependencies : tables'.dependencies = tables.dependencies
  workItemFileLocks : tables'.workItemFileLocks = tables.workItemFileLocks ++ workItemLocks
  jobFileLocks : tables'.jobFileLocks = tables.jobFileLocks ++ jobLocks
  workItemHeld : ∀ lock ∈ workItemLocks, lock.releaseReason = none
  jobHeld : ∀ lock ∈ jobLocks, lock.releaseReason = none

section LeaseAs

variable (leased : Option ℕ) (job : UnlockJob φ)

@[simp] theorem leaseAs_id : (job.leaseAs leased).id = job.id := by
  unfold UnlockJob.leaseAs
  split <;> rfl

@[simp] theorem leaseAs_workItemId : (job.leaseAs leased).workItemId = job.workItemId := by
  unfold UnlockJob.leaseAs
  split <;> rfl

@[simp] theorem leaseAs_parentJobId : (job.leaseAs leased).parentJobId = job.parentJobId := by
  unfold UnlockJob.leaseAs
  split <;> rfl

@[simp] theorem leaseAs_jobType : (job.leaseAs leased).jobType = job.jobType := by
  unfold UnlockJob.leaseAs
  split <;> rfl

@[simp] theorem leaseAs_payload : (job.leaseAs leased).payload = job.payload := by
  unfold UnlockJob.leaseAs
  split <;> rfl

@[simp] theorem scopeRows_leaseAs :
    scopeRows normalizeRepoPath (job.leaseAs leased) = scopeRows normalizeRepoPath job := by
  simp [scopeRows, UnlockJob.isWriter]

theorem leaseAs_of_ne (h : leased ≠ some job.id) : job.leaseAs leased = job :=
  if_neg fun hboth => h hboth.1

/-- A leased job is not queued. -/
theorem leaseAs_status (h : leased = some job.id) : (job.leaseAs leased).status ≠ .queued := by
  unfold UnlockJob.leaseAs
  split
  case isTrue => exact fun hqueued => JobStatus.noConfusion hqueued
  case isFalse hnot => exact fun hqueued => hnot ⟨h, hqueued⟩

/-- A lease keeps a job live, and keeps it from having succeeded. -/
theorem leaseAs_status_mem (statuses : List JobStatus) (hqueued : JobStatus.queued ∉ statuses)
    (hleased : JobStatus.leased ∉ statuses) :
    (job.leaseAs leased).status ∈ statuses ↔ job.status ∈ statuses := by
  unfold UnlockJob.leaseAs
  split
  case isTrue hboth =>
    rw [hboth.2]
    exact iff_of_false hleased hqueued
  case isFalse => rfl

end LeaseAs

theorem flatMap_filter_eq {α β : Type*} (p : α → Bool) (f : α → List β) (xs : List α) :
    (xs.filter p).flatMap f = xs.flatMap fun x => if p x then f x else [] := by
  induction xs with
  | nil => rfl
  | cons x xs ih =>
    rw [List.flatMap_cons, ← ih]
    cases hp : p x with
    | true => rw [List.filter_cons_of_pos hp, List.flatMap_cons, if_pos rfl]
    | false =>
      rw [List.filter_cons_of_neg (by rw [hp]; exact Bool.false_ne_true),
        if_neg Bool.false_ne_true, List.nil_append]

variable {tables tables' : UnlockTables φ} {leased : Option ℕ}
  {workItemLocks : List WorkItemFileLock} {jobLocks : List JobFileLock}

theorem QuietTables.live_eq (h : QuietTables tables tables' leased workItemLocks jobLocks) :
    tables'.live = tables.live.map (UnlockJob.leaseAs leased) := by
  unfold UnlockTables.live
  rw [h.jobs, List.filter_map]
  congr 1
  refine List.filter_congr fun job _ => ?_
  rw [Function.comp_apply, decide_eq_decide, leaseAs_status_mem _ _ _ (by decide) (by decide)]

theorem QuietTables.liveIds_eq (h : QuietTables tables tables' leased workItemLocks jobLocks) :
    tables'.live.map (·.id) = tables.live.map (·.id) := by
  rw [h.live_eq, List.map_map]
  exact List.map_congr_left fun job _ => leaseAs_id leased job

theorem QuietTables.isLive_eq (h : QuietTables tables tables' leased workItemLocks jobLocks) :
    tables'.isLive = tables.isLive := by
  funext id
  rw [Bool.eq_iff_iff, isLive_iff, isLive_iff, h.liveIds_eq]

theorem QuietTables.dependencyCalls_eq
    (h : QuietTables tables tables' leased workItemLocks jobLocks) :
    dependencyCalls tables' = dependencyCalls tables := by
  unfold dependencyCalls
  rw [h.dependencies, h.jobs]
  congr 1
  refine List.filter_congr fun d _ => ?_
  rw [List.any_map]
  congr 2
  funext job
  have hstatus := leaseAs_status_mem leased job [.succeeded] (by decide) (by decide)
  rw [List.mem_singleton, List.mem_singleton] at hstatus
  rw [Function.comp_apply, leaseAs_id, bne, bne, Bool.eq_iff_iff]
  simp [hstatus]

theorem QuietTables.contractOwners_eq
    (h : QuietTables tables tables' leased workItemLocks jobLocks) (job : UnlockJob φ)
    (ownerKey : String) : contractOwners tables' (job.leaseAs leased) ownerKey =
      (contractOwners tables job ownerKey).map (UnlockJob.leaseAs leased) := by
  unfold contractOwners
  rw [h.live_eq, List.filter_map]
  congr 1
  refine List.filter_congr fun owner _ => ?_
  simp

theorem QuietTables.contractCalls_eq
    (h : QuietTables tables tables' leased workItemLocks jobLocks) :
    contractCalls tables' = contractCalls tables := by
  unfold contractCalls
  rw [h.live_eq, List.flatMap_map]
  refine List.flatMap_congr fun consumer _ => ?_
  rw [leaseAs_payload]
  refine List.flatMap_congr fun ownerKey _ => ?_
  rw [h.contractOwners_eq]
  cases contractOwners tables consumer ownerKey with
  | nil => rfl
  | cons owner owners =>
    cases owners with
    | nil => simp
    | cons other owners => rfl

theorem QuietTables.fileOwnerCalls_eq
    (h : QuietTables tables tables' leased workItemLocks jobLocks) (waiter : UnlockJob φ)
    (hold : FileHold) : fileOwnerCalls normalizeRepoPath tables' waiter hold =
      fileOwnerCalls normalizeRepoPath tables waiter hold := by
  unfold fileOwnerCalls
  rw [h.live_eq, List.filter_map, List.filter_map]
  dsimp only
  rw [List.map_map]
  congr 1
  have hwriter : (UnlockJob.isWriter ∘ UnlockJob.leaseAs leased : UnlockJob φ → Bool) =
      UnlockJob.isWriter := by
    funext job
    simp [UnlockJob.isWriter]
  rw [hwriter]
  have howner : ((fun owner => decide (owner.workItemId = hold.workItemId) &&
        touchesRow (scopeRows normalizeRepoPath owner) hold.row) ∘ UnlockJob.leaseAs leased :
        UnlockJob φ → Bool) = fun owner => decide (owner.workItemId = hold.workItemId) &&
        touchesRow (scopeRows normalizeRepoPath owner) hold.row := by
    funext job
    simp
  rw [howner]
  refine List.map_congr_left fun owner _ => ?_
  rw [Function.comp_apply, leaseAs_id]

theorem QuietTables.queued_eq (h : QuietTables tables tables' leased workItemLocks jobLocks) :
    tables'.queued = tables.queued.filter fun job => decide (leased ≠ some job.id) := by
  unfold UnlockTables.queued
  rw [h.live_eq]
  induction tables.live with
  | nil => rfl
  | cons job jobs ih =>
    rw [List.map_cons, List.filter_cons, ih, List.filter_cons]
    by_cases hleased : leased = some job.id
    · -- the job that is leased goes, queued or not
      rw [if_neg (by simpa using leaseAs_status leased job hleased)]
      split
      case isTrue => rw [List.filter_cons_of_neg (by simpa using hleased)]
      case isFalse => rfl
    · rw [leaseAs_of_ne leased job hleased]
      split
      case isTrue => rw [List.filter_cons_of_pos (by simpa using hleased)]
      case isFalse => rfl

variable (h : QuietTables tables tables' leased workItemLocks jobLocks)
include h

/-- The calls of a waiter for the locks that are held after the write. -/
theorem QuietTables.lockCallsFor_eq (waiter : UnlockJob φ) :
    lockCallsFor normalizeRepoPath tables' waiter (heldLocks tables') =
      workItemLockCalls normalizeRepoPath tables waiter ++
        (lockCallsFor normalizeRepoPath tables waiter (workItemLocks.map WorkItemFileLock.hold) ++
          (lockCallsFor normalizeRepoPath tables waiter
              ((tables.jobFileLocks.filter (·.releaseReason.isNone)).map JobFileLock.hold) ++
            lockCallsFor normalizeRepoPath tables waiter (jobLocks.map JobFileLock.hold))) := by
  have howners : ∀ locks, lockCallsFor normalizeRepoPath tables' waiter locks =
      lockCallsFor normalizeRepoPath tables waiter locks := by
    intro locks
    unfold lockCallsFor
    simp only [h.fileOwnerCalls_eq]
  have hworkItem : workItemLocks.filter (·.releaseReason.isNone) = workItemLocks :=
    List.filter_eq_self.mpr fun lock hlock => by rw [h.workItemHeld lock hlock]; rfl
  have hjob : jobLocks.filter (·.releaseReason.isNone) = jobLocks :=
    List.filter_eq_self.mpr fun lock hlock => by rw [h.jobHeld lock hlock]; rfl
  rw [howners, heldLocks_eq, h.workItemFileLocks, h.jobFileLocks, List.filter_append,
    List.filter_append, hworkItem, hjob, List.map_append, List.map_append, workItemLockCalls_eq,
    lockCallsFor_append, lockCallsFor_append, lockCallsFor_append, List.append_assoc]

variable (hleased : ∀ jobId, leased = some jobId → ∀ producer,
  FileWait normalizeRepoPath tables jobId producer → producer = jobId)
include hleased

omit h in
/-- The calls of the leased job are calls for itself. -/
theorem leased_calls {waiter : UnlockJob φ} (hwaiter : waiter ∈ tables.queued)
    (hjob : leased = some waiter.id) {hold : FileHold}
    (hawaits : AwaitsHold normalizeRepoPath tables waiter hold) {call : EdgeCall}
    (hcall : call ∈ fileOwnerCalls normalizeRepoPath tables waiter hold) :
    call.producer = call.consumer := by
  obtain ⟨hkeeps, hshape⟩ := fileOwnerCalls_shape hcall
  have hself := hleased waiter.id hjob call.producer ⟨waiter, hwaiter, rfl, hold, hawaits, hkeeps⟩
  rw [hshape]
  exact hself

/-- **Locks**: the leased job had none to wait for, and the others had the waits for those added. -/
theorem QuietTables.lockCalls_alike
    (hlocked : ∀ hold ∈ workItemLocks.map WorkItemFileLock.hold ++ jobLocks.map JobFileLock.hold,
      ∀ waiter ∈ tables.queued, hold.workItemId ≠ waiter.workItemId →
      touchesRow (scopeRows normalizeRepoPath waiter) hold.row = true →
      HasWaits normalizeRepoPath tables (workItemLockCalls normalizeRepoPath tables waiter)
        waiter.id hold) :
    Alike tables.isLive (lockCalls normalizeRepoPath tables)
      (lockCalls normalizeRepoPath tables') := by
  rw [lockCalls_eq, lockCalls_eq, h.queued_eq, flatMap_filter_eq]
  refine Alike.flatMap fun waiter hwaiter => ?_
  by_cases hjob : leased = some waiter.id
  · rw [if_neg (by simpa using hjob)]
    refine alike_nil fun call hcall => ?_
    obtain ⟨lock, hlock, hother, htouches, hcall⟩ := mem_lockCallsFor hcall
    exact leased_calls hleased hwaiter hjob (Or.inl ⟨hlock, hother, htouches⟩) hcall
  · rw [if_pos (by simpa using hjob), h.lockCallsFor_eq, heldLocks_eq, lockCallsFor_append,
      ← workItemLockCalls_eq]
    have hadded : ∀ locks, (∀ hold ∈ locks, hold ∈ workItemLocks.map WorkItemFileLock.hold ++
        jobLocks.map JobFileLock.hold) →
        ∀ call ∈ lockCallsFor normalizeRepoPath tables waiter locks,
          call.producer = call.consumer ∨
            call ∈ workItemLockCalls normalizeRepoPath tables waiter := by
      intro locks hlocks call hcall
      obtain ⟨lock, hlock, hother, htouches, hcall⟩ := mem_lockCallsFor hcall
      exact (hlocked lock (hlocks lock hlock) waiter hwaiter hother htouches).calls hcall
    -- the calls for the added job locks come last, those for the other locks before them
    have hjobLocks := @alike_insert tables.isLive _ _
      (fun call hcall => (hadded (jobLocks.map JobFileLock.hold)
        (fun hold hhold => List.mem_append_right _ hhold) call hcall).imp_right
          (List.mem_append_left (lockCallsFor normalizeRepoPath tables waiter
            ((tables.jobFileLocks.filter (·.releaseReason.isNone)).map JobFileLock.hold)))) []
    rw [List.append_nil, List.append_nil, List.append_assoc] at hjobLocks
    exact hjobLocks.trans (alike_insert (hadded _ fun hold hhold => List.mem_append_left _ hhold) _)

/-- The calls for a recorded wait, after the write. -/
theorem QuietTables.laneWaitCalls_alike {wait : FileLaneWait}
    (hwait : leased ≠ none → wait ∈ tables.fileLaneWaits) :
    Alike tables.isLive (laneWaitCalls normalizeRepoPath tables wait)
      (laneWaitCalls normalizeRepoPath tables' wait) := by
  have hlookup : lookup UnlockJob.id wait.waiterJobId tables'.live =
      (lookup UnlockJob.id wait.waiterJobId tables.live).map (UnlockJob.leaseAs leased) := by
    unfold lookup
    rw [h.live_eq, List.find?_map]
    congr 2
    funext job
    rw [Function.comp_apply, leaseAs_id]
  unfold laneWaitCalls
  rw [hlookup]
  cases hwaiter : lookup UnlockJob.id wait.waiterJobId tables.live with
  | none => exact Alike.refl []
  | some waiter =>
    obtain ⟨hlive, hid⟩ := lookup_live_iff.mp hwaiter
    rw [Option.map_some]
    dsimp only
    by_cases hjob : leased = some waiter.id
    · rw [if_neg (leaseAs_status leased waiter hjob)]
      split
      case isTrue hqueued =>
        have hmem := hwait (by rw [hjob]; exact Option.some_ne_none _)
        have hwaiting := mem_queued.mpr ⟨hlive, hqueued⟩
        exact alike_nil fun call hcall => leased_calls hleased hwaiting hjob
          (Or.inr ⟨wait, hmem, hid.symm, rfl⟩) hcall
      case isFalse => exact Alike.refl []
    · rw [leaseAs_of_ne leased waiter hjob]
      split
      case isTrue =>
        rw [h.fileOwnerCalls_eq]
        exact Alike.refl _
      case isFalse => exact Alike.refl []

/-- **The graph stays** where the waits do. -/
theorem QuietTables.graph_eq
    (hlocked : ∀ hold ∈ workItemLocks.map WorkItemFileLock.hold ++ jobLocks.map JobFileLock.hold,
      ∀ waiter ∈ tables.queued, hold.workItemId ≠ waiter.workItemId →
      touchesRow (scopeRows normalizeRepoPath waiter) hold.row = true →
      HasWaits normalizeRepoPath tables (workItemLockCalls normalizeRepoPath tables waiter)
        waiter.id hold)
    (hwaits : Alike tables.isLive (edgeCalls normalizeRepoPath tables)
      (dependencyCalls tables ++ contractCalls tables ++ lockCalls normalizeRepoPath tables ++
        tables'.fileLaneWaits.flatMap (laneWaitCalls normalizeRepoPath tables)))
    (hmem : leased ≠ none → ∀ wait ∈ tables'.fileLaneWaits, wait ∈ tables.fileLaneWaits) :
    buildUnlockGraph normalizeRepoPath tables' = buildUnlockGraph normalizeRepoPath tables := by
  have hcalls : Alike tables.isLive (edgeCalls normalizeRepoPath tables)
      (edgeCalls normalizeRepoPath tables') := by
    refine hwaits.trans ?_
    rw [edgeCalls, h.dependencyCalls_eq, h.contractCalls_eq, waitCalls_eq]
    refine Alike.append ((Alike.refl _).append (h.lockCalls_alike hleased hlocked)) ?_
    exact Alike.flatMap fun wait hwait =>
      h.laneWaitCalls_alike hleased fun hsome => hmem hsome wait hwait
  unfold buildUnlockGraph
  rw [h.isLive_eq, h.liveIds_eq]
  exact (hcalls _ (UnlockGraph.keyed_empty _)).symm

end Quiet

end PosseClient
