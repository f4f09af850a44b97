/-
# Writes that send no wake

What an operation of the queue leaves of the tables of the unlock graph where it sends no wake.

* `AddsLocks`: lock rows are added, and nothing else.
* `QuietWrite`: at most one job is leased, and lock rows are added.
* `QueueWrite.quiet`: **every operation without a wake** is such a write. Releases, status changes,
  created jobs and dependency writers that change something send a wake.
-/
import PosseClient.Queue.RankingMemo

namespace PosseClient

open Table

/-! ## 1. Added lock rows -/

/-- The two databases differ at most in added lock rows, which are held. -/
structure AddsLocks (db db' : Db) : Prop where
  jobs : db'.jobs = db.jobs
  dependencies : db'.dependencies = db.dependencies
  wakes : db'.wakes = db.wakes
  workItemFileLocks : ∃ added, db'.workItemFileLocks = db.workItemFileLocks ++ added ∧
    ∀ lock ∈ added, lock.releaseReason = none
  jobFileLocks : ∃ added, db'.jobFileLocks = db.jobFileLocks ++ added ∧
    ∀ lock ∈ added, lock.releaseReason = none

theorem AddsLocks.refl (db : Db) : AddsLocks db db :=
  ⟨rfl, rfl, rfl, ⟨[], (List.append_nil _).symm, by simp⟩, ⟨[], (List.append_nil _).symm, by simp⟩⟩

theorem AddsLocks.trans {a b c : Db} (h : AddsLocks a b) (h' : AddsLocks b c) : AddsLocks a c := by
  refine ⟨h'.jobs.trans h.jobs, h'.dependencies.trans h.dependencies, h'.wakes.trans h.wakes,
    ?_, ?_⟩
  · obtain ⟨added, heq, hheld⟩ := h.workItemFileLocks
    obtain ⟨more, heq', hheld'⟩ := h'.workItemFileLocks
    refine ⟨added ++ more, by rw [heq', heq, List.append_assoc], fun lock hlock => ?_⟩
    exact (List.mem_append.mp hlock).elim (hheld lock) (hheld' lock)
  · obtain ⟨added, heq, hheld⟩ := h.jobFileLocks
    obtain ⟨more, heq', hheld'⟩ := h'.jobFileLocks
    refine ⟨added ++ more, by rw [heq', heq, List.append_assoc], fun lock hlock => ?_⟩
    exact (List.mem_append.mp hlock).elim (hheld lock) (hheld' lock)

theorem addsLocks_foldl {α : Type} {step : Db → α → Db} (hstep : ∀ d a, AddsLocks d (step d a))
    (as : List α) (db : Db) : AddsLocks db (as.foldl step db) := by
  induction as generalizing db with
  | nil => exact AddsLocks.refl db
  | cons a as ih => exact (hstep db a).trans (ih (step db a))

theorem addsLocks_insertWorkItemFileLock (db : Db) (lock : WorkItemFileLock)
    (hheld : lock.releaseReason = none) : AddsLocks db (insertWorkItemFileLock db lock) := by
  unfold insertWorkItemFileLock
  split
  · exact AddsLocks.refl db
  · exact ⟨rfl, rfl, rfl, ⟨[lock], rfl, by simpa using hheld⟩,
      ⟨[], (List.append_nil _).symm, by simp⟩⟩

theorem addsLocks_insertJobFileLock (db : Db) (lock : JobFileLock)
    (hheld : lock.releaseReason = none) : AddsLocks db (insertJobFileLock db lock) := by
  unfold insertJobFileLock
  split
  · exact AddsLocks.refl db
  · exact ⟨rfl, rfl, rfl, ⟨[], (List.append_nil _).symm, by simp⟩,
      ⟨[lock], rfl, by simpa using hheld⟩⟩

theorem addsLocks_insertMissingWiLocks (db : Db) (job : Job) (scope : WriteScope)
    (leaseToken : Option ℕ) : AddsLocks db (insertMissingWiLocks db job scope leaseToken) := by
  unfold insertMissingWiLocks
  split
  · exact AddsLocks.refl db
  split
  · exact AddsLocks.refl db
  split
  · exact AddsLocks.refl db
  · exact addsLocks_foldl (fun d _ => addsLocks_insertWorkItemFileLock d _ rfl) _ db

theorem addsLocks_insertJobLocks (db : Db) (job : Job) (scope : WriteScope) :
    AddsLocks db (insertJobLocks db job scope) := by
  unfold insertJobLocks
  split
  · exact AddsLocks.refl db
  · exact addsLocks_foldl (fun d _ => addsLocks_insertJobFileLock d _ rfl) _ db

theorem addsLocks_insertLeaseLocks (db : Db) (fresh : Job) (scope : WriteScope) (leaseToken : ℕ) :
    AddsLocks db (insertLeaseLocks db fresh scope leaseToken) := by
  unfold insertLeaseLocks
  split_ifs
  · exact addsLocks_insertJobLocks db fresh scope
  · exact (addsLocks_insertMissingWiLocks db fresh scope _).trans
      (addsLocks_insertJobLocks _ fresh scope)
  · exact AddsLocks.refl db

/-! ## 2. Wakes -/

@[simp] theorem notify_wakes_length (db : Db) (wake : Wake) :
    (db.notify wake).wakes.length = db.wakes.length + 1 := by
  rw [Db.notify, List.length_append, List.length_singleton]

/-- Releases that change a row send a wake. -/
theorem releaseJobRows_cases (db : Db) (p : JobFileLock → Bool) (reason : ReleaseReason)
    (wake : Wake) : releaseJobRows db p reason wake = db ∨
      (releaseJobRows db p reason wake).wakes.length = db.wakes.length + 1 := by
  unfold releaseJobRows
  dsimp only
  split
  case isTrue => exact Or.inr (notify_wakes_length _ _)
  case isFalse hnone =>
    refine Or.inl ?_
    rw [Db.updateJobFileLocks, updateWhere_of_changes_eq_zero (by omega)]

theorem releaseWorkItemRows_cases (db : Db) (p : WorkItemFileLock → Bool) (reason : ReleaseReason)
    (wake : Wake) : releaseWorkItemRows db p reason wake = db ∨
      (releaseWorkItemRows db p reason wake).wakes.length = db.wakes.length + 1 := by
  unfold releaseWorkItemRows
  dsimp only
  split
  case isTrue => exact Or.inr (notify_wakes_length _ _)
  case isFalse hnone =>
    refine Or.inl ?_
    rw [Db.updateWorkItemFileLocks, updateWhere_of_changes_eq_zero (by omega)]

theorem cleanupStaleFileLocks_cases (db : Db) : cleanupStaleFileLocks db = db ∨
    (cleanupStaleFileLocks db).wakes.length = db.wakes.length + 1 := by
  unfold cleanupStaleFileLocks
  dsimp only
  split
  case isTrue => exact Or.inr (notify_wakes_length _ _)
  case isFalse hnone =>
    refine Or.inl ?_
    unfold staleFileLockCount at hnone
    rw [updateWhere_of_changes_eq_zero (by omega), updateWhere_of_changes_eq_zero (by omega)]

theorem lockRelease_cases (db : Db) (op : LockRelease) : op.exec db = db ∨
    (op.exec db).wakes.length = db.wakes.length + 1 := by
  cases op with
  | job jobId reason =>
    unfold LockRelease.exec releaseJobFileLocks
    dsimp only
    split
    · exact Or.inl rfl
    · exact releaseJobRows_cases _ _ _ _
  | workItem workItemId reason => exact releaseWorkItemRows_cases _ _ _ _
  | sourceJob jobId reason => exact releaseWorkItemRows_cases _ _ _ _
  | workItemPath workItemId path lockKind reason =>
    unfold LockRelease.exec releaseWorkItemFileLockForPath
    dsimp only
    split
    · exact Or.inl rfl
    · exact releaseWorkItemRows_cases _ _ _ _
  | stale => exact cleanupStaleFileLocks_cases db

theorem releaseJobLocksForStatus_wakes (db : Db) (jobId : ℕ) (status : JobStatus) :
    db.wakes.length ≤ (releaseJobLocksForStatus db jobId status).wakes.length := by
  unfold releaseJobLocksForStatus
  split
  · rcases lockRelease_cases db (.job jobId (.jobStatus status)) with hsame | hwoken
    · exact (congrArg (fun d : Db => d.wakes.length) hsame).ge
    · exact (Nat.le_succ _).trans hwoken.ge
  · exact le_rfl

theorem consumePendingHumanGateResume_wakes (db : Db) (jobId : ℕ) :
    (consumePendingHumanGateResume db jobId).1.wakes = db.wakes := by
  unfold consumePendingHumanGateResume
  split
  · rfl
  split
  · rfl
  split_ifs <;> rfl

theorem returnTransferredFile_wakes (db : Db) (workItemId jobId : ℕ) (entry : ReviewedTransfer)
    (file : String) : (returnTransferredFile db workItemId jobId entry file).wakes = db.wakes := by
  unfold returnTransferredFile
  dsimp only
  split
  · split <;> rfl
  · rfl

theorem foldl_wakes {α : Type} {step : Db → α → Db} (hstep : ∀ d a, (step d a).wakes = d.wakes)
    (as : List α) (db : Db) : (as.foldl step db).wakes = db.wakes := by
  induction as generalizing db with
  | nil => rfl
  | cons a as ih => rw [List.foldl_cons, ih, hstep]

theorem cancelUnusedReviewedTransfers_wakes (db : Db) (jobId : ℕ) :
    db.wakes.length ≤ (cancelUnusedReviewedTransfers db jobId).wakes.length := by
  unfold cancelUnusedReviewedTransfers
  split
  · exact le_rfl
  dsimp only
  split
  · exact le_rfl
  split
  · exact le_rfl
  · rw [notify_wakes_length, Db.updateJobs, returnTransfers,
      foldl_wakes fun d entry =>
        foldl_wakes (fun d file => returnTransferredFile_wakes d _ _ _ _) _ d]
    exact Nat.le_succ _

theorem settleGateOfJob_wakes (db : Db) (jobId : ℕ) (status : JobStatus) :
    (settleGateOfJob db jobId status).wakes = db.wakes := by
  unfold settleGateOfJob
  dsimp only
  split <;> rfl

theorem releaseTransferredFiles_wakes (db : Db) (transfers : List ReviewedTransfer) :
    (releaseTransferredFiles db transfers).wakes = db.wakes := by
  unfold releaseTransferredFiles
  refine foldl_wakes (fun d transfer => ?_) transfers db
  refine foldl_wakes (fun d file => ?_) transfer.files d
  rfl

theorem reserveReviewedHandoffs_cases (db : Db) (job : Job) (transfers : List ReviewedTransfer) :
    reserveReviewedHandoffs db job transfers = db ∨
      (reserveReviewedHandoffs db job transfers).wakes.length = db.wakes.length + 1 := by
  unfold reserveReviewedHandoffs
  split
  · exact Or.inl rfl
  · refine Or.inr ?_
    rw [notify_wakes_length]
    exact congrArg (fun wakes => wakes.length + 1)
      (releaseTransferredFiles_wakes db (numberTransfers db transfers))

/-! ## 3. Quiet writes -/

/-- **At most one job is leased, and lock rows are added.** -/
structure QuietWrite (db db' : Db) (leased : Option ℕ) : Prop where
  jobs : ∃ ownerId token expiresAt, db'.jobs =
    updateWhere (fun job => leased == some job.id && job.status == .queued)
      (fun job => job.lease ownerId token expiresAt) db.jobs
  dependencies : db'.dependencies = db.dependencies
  workItemFileLocks : ∃ added, db'.workItemFileLocks = db.workItemFileLocks ++ added ∧
    ∀ lock ∈ added, lock.releaseReason = none
  jobFileLocks : ∃ added, db'.jobFileLocks = db.jobFileLocks ++ added ∧
    ∀ lock ∈ added, lock.releaseReason = none

theorem AddsLocks.quiet {db db' : Db} (h : AddsLocks db db') : QuietWrite db db' none := by
  refine ⟨⟨"", 0, 0, ?_⟩, h.dependencies, h.workItemFileLocks, h.jobFileLocks⟩
  rw [h.jobs, updateWhere_of_changes_eq_zero]
  exact List.countP_eq_zero.mpr fun job _ => by simp

theorem QuietWrite.refl (db : Db) : QuietWrite db db none := (AddsLocks.refl db).quiet

/-- The job tables of a lease, as `acquireLease` and `acquireLeaseWithWriteLocks` write it. -/
theorem quietWrite_lease {db db' : Db} {p : Job → Bool} {jobId : ℕ} {ownerId : String} {token : ℕ}
    {expiresAt : ℤ}
    (hp : ∀ job ∈ db.jobs, p job = (some jobId == some job.id && job.status == .queued))
    (h : AddsLocks ((db.updateJobs p (fun job => job.lease ownerId token expiresAt)).drawTokens 1)
      db') : QuietWrite db db' (some jobId) := by
  refine ⟨⟨ownerId, token, expiresAt, ?_⟩, h.dependencies, h.workItemFileLocks, h.jobFileLocks⟩
  rw [h.jobs]
  exact List.map_congr_left fun job hjob => by rw [hp job hjob]

theorem quiet_acquireLease (clock : Clock) (db : Db) (jobId : ℕ) (ownerId : String)
    (durationMs : ℤ) (hids : (db.jobs.map Job.id).Nodup) :
    QuietWrite db (acquireLease clock db jobId ownerId durationMs).1
      ((acquireLease clock db jobId ownerId durationMs).2.map fun _ => jobId) := by
  unfold acquireLease
  dsimp only
  split
  case isTrue => exact QuietWrite.refl db
  case isFalse hchanges =>
    obtain ⟨row, hrow, happlies⟩ := changes_pos_iff.mp (Nat.pos_of_ne_zero hchanges)
    refine quietWrite_lease (fun job hjob => ?_) (AddsLocks.refl _)
    rw [Bool.eq_iff_iff]
    simp only [Bool.and_eq_true, beq_iff_eq, Bool.not_eq_true', Option.some.injEq] at happlies ⊢
    constructor
    · rintro ⟨⟨rfl, hqueued⟩, -⟩
      exact ⟨rfl, hqueued⟩
    · rintro ⟨rfl, hqueued⟩
      -- the budget of its work item is not paused, as the row is the one that was leased
      have hsame : job = row := eq_of_key_eq hids hjob hrow happlies.1.1.symm
      exact ⟨⟨rfl, hqueued⟩, hsame ▸ happlies.2⟩

theorem quiet_conflictAfterCleanup {db : Db} {conflict : Db → Option WriteLockConflict}
    (h : (conflictAfterCleanup db conflict).1.wakes.length ≤ db.wakes.length) :
    (conflictAfterCleanup db conflict).1 = db := by
  rcases (conflictAfterCleanup_spec db conflict).1 with hsame | hcleaned
  · exact hsame
  · rw [hcleaned] at h ⊢
    rcases cleanupStaleFileLocks_cases db with hsame | hwoken
    · exact hsame
    · omega

theorem quiet_acquireLeaseWithWriteLocks {env : AdmissionEnv} {clock : Clock} {db : Db}
    {jobId : ℕ} {ownerId : String} {durationMs : ℤ}
    (h : (acquireLeaseWithWriteLocks env clock db jobId ownerId durationMs).1.wakes.length ≤
      db.wakes.length) :
    QuietWrite db (acquireLeaseWithWriteLocks env clock db jobId ownerId durationMs).1
      ((acquireLeaseWithWriteLocks env clock db jobId ownerId durationMs).2.map
        fun _ => jobId) := by
  have hcleaned : ∀ db' : Db, db' = db ∨ db' = cleanupStaleFileLocks db →
      db'.wakes.length ≤ db.wakes.length → db' = db := by
    rintro db' (rfl | rfl) hwakes
    · rfl
    · rcases cleanupStaleFileLocks_cases db with hsame | hwoken
      · exact hsame
      · omega
  rcases acquireLeaseWithWriteLocks_cases env clock db jobId ownerId durationMs with
    ⟨db', heq, hdb'⟩ | ⟨fresh, db₁, transfers, hpasses, heq⟩
  · rw [heq] at h ⊢
    rw [hcleaned db' hdb' h]
    exact QuietWrite.refl db
  · rw [heq] at h ⊢
    have hid : fresh.id = jobId := lookup_key hpasses.job
    have hlocks := addsLocks_insertLeaseLocks (reserveReviewedHandoffs
      (leaseQueuedJob clock db₁ fresh.id ownerId durationMs) fresh transfers) fresh
      (leaseScope fresh) db₁.nextToken
    rw [leaseWithLocks] at h ⊢
    dsimp only at h ⊢
    rw [hlocks.wakes] at h
    rcases reserveReviewedHandoffs_cases (leaseQueuedJob clock db₁ fresh.id ownerId durationMs)
        fresh transfers with hsame | hwoken
    · rw [hsame] at h hlocks ⊢
      obtain rfl := hcleaned db₁ hpasses.cleaned h
      rw [Option.map_some]
      refine quietWrite_lease (fun job _ => ?_) hlocks
      rw [hid, Bool.eq_iff_iff, Bool.and_eq_true, Bool.and_eq_true, beq_iff_eq, beq_iff_eq,
        beq_iff_eq, Option.some.injEq, eq_comm (a := jobId)]
    · have hdb₁ : db.wakes.length ≤ db₁.wakes.length := by
        rcases hpasses.cleaned with rfl | rfl
        · exact le_rfl
        · rcases cleanupStaleFileLocks_cases db with hsame | hmore
          · rw [hsame]
          · omega
      have hlease : (leaseQueuedJob clock db₁ fresh.id ownerId durationMs).wakes = db₁.wakes := rfl
      rw [hwoken, hlease] at h
      omega

theorem quiet_verifyOrAcquire {env : AdmissionEnv} {db : Db} {jobId : ℕ} {filePath : String}
    (h : (verifyOrAcquireJobWriteLockForPath env db jobId filePath).1.wakes.length ≤
      db.wakes.length) :
    QuietWrite db (verifyOrAcquireJobWriteLockForPath env db jobId filePath).1 none := by
  unfold verifyOrAcquireJobWriteLockForPath at h ⊢
  dsimp only at h ⊢
  cases hjob : db.getJob jobId with
  | none => exact QuietWrite.refl db
  | some job =>
    simp only [hjob] at h ⊢
    split at h
    case isTrue hskip =>
      rw [if_pos hskip]
      exact QuietWrite.refl db
    case isFalse hskip =>
      rw [if_neg hskip]
      generalize ({ files := [normalizeLockPath filePath] } : WriteScope) = scope at h ⊢
      generalize (fun d => findWriteLockConflict env d job scope false) = conflict at h ⊢
      have hlocks : ∀ d, AddsLocks d (insertJobLocks (insertMissingWiLocks d job scope none) job
          scope) := fun d => (addsLocks_insertMissingWiLocks d job scope none).trans
        (addsLocks_insertJobLocks _ job scope)
      have hsame : (conflictAfterCleanup db conflict).1.wakes.length ≤ db.wakes.length := by
        split at h
        · exact h
        · rwa [(hlocks _).wakes] at h
      rw [quiet_conflictAfterCleanup hsame]
      split
      · exact QuietWrite.refl db
      · exact (hlocks db).quiet

theorem quiet_acquireAdditional (env : AdmissionEnv) (db : Db) (jobId : ℕ) (paths : List String) :
    QuietWrite db (acquireAdditionalJobWritePaths env db jobId paths).1 none := by
  unfold acquireAdditionalJobWritePaths
  dsimp only
  split
  · exact QuietWrite.refl db
  split
  · exact QuietWrite.refl db
  split
  · exact QuietWrite.refl db
  split
  · exact QuietWrite.refl db
  split
  · exact QuietWrite.refl db
  split
  · exact QuietWrite.refl db
  · exact ((addsLocks_insertMissingWiLocks _ _ _ _).trans (addsLocks_insertJobLocks _ _ _)).quiet

/-- A release of a lease sends a wake. -/
theorem releaseLease_cases (clock : Clock) (db : Db) (jobId leaseToken : ℕ)
    (finalStatus : JobStatus) (readyAt : Option ℤ) :
    (releaseLease clock db jobId leaseToken finalStatus readyAt).1 = db ∨
      db.wakes.length <
        (releaseLease clock db jobId leaseToken finalStatus readyAt).1.wakes.length := by
  unfold releaseLease
  dsimp only
  split
  · exact Or.inl rfl
  · refine Or.inr ?_
    rw [notify_wakes_length, Nat.lt_succ_iff]
    refine le_trans ?_ (releaseJobLocksForStatus_wakes _ jobId _)
    rw [consumePendingHumanGateResume_wakes]
    split
    · exact cancelUnusedReviewedTransfers_wakes (db.updateJobs _ _) jobId
    · exact le_rfl

/-- A status change sends a wake. -/
theorem updateJobStatus_cases (clock : Clock) (db : Db) (jobId : ℕ) (status : JobStatus)
    (options : StatusOptions) : (updateJobStatus clock db jobId status options).1 = db ∨
      db.wakes.length < (updateJobStatus clock db jobId status options).1.wakes.length := by
  unfold updateJobStatus
  dsimp only
  split
  · exact Or.inl rfl
  · refine Or.inr ?_
    rw [notify_wakes_length, Nat.lt_succ_iff]
    refine le_trans ?_ (releaseJobLocksForStatus_wakes _ jobId _)
    have hsettled : ∀ d : Db, (if (d.getJob jobId).any (fun job => job.jobType == .humanInput) then
        settleGateOfJob d jobId status else d).wakes = d.wakes := by
      intro d
      split
      · exact settleGateOfJob_wakes d jobId status
      · rfl
    split
    · refine le_trans ?_ (cancelUnusedReviewedTransfers_wakes _ jobId)
      rw [hsettled]
      exact le_rfl
    · rw [hsettled]
      exact le_rfl

theorem registerHumanGateIn_tables (db : Db) (gateJobId : ℕ) (contract : Option GateContract) :
    AddsLocks db (registerHumanGateIn db gateJobId contract).1 := by
  have hsame : ∀ d : Db, d.jobs = db.jobs → d.dependencies = db.dependencies →
      d.wakes = db.wakes → d.workItemFileLocks = db.workItemFileLocks →
      d.jobFileLocks = db.jobFileLocks → AddsLocks db d :=
    fun d hjobs hdependencies hwakes hworkItem hjob => ⟨hjobs, hdependencies, hwakes,
      ⟨[], by rw [hworkItem, List.append_nil], by simp⟩,
      ⟨[], by rw [hjob, List.append_nil], by simp⟩⟩
  unfold registerHumanGateIn
  split
  · exact AddsLocks.refl db
  split
  · exact AddsLocks.refl db
  dsimp only
  split
  · exact hsame _ rfl rfl rfl rfl rfl
  split
  · exact hsame _ rfl rfl rfl rfl rfl
  · exact hsame _ rfl rfl rfl rfl rfl

/-- A created job sends a wake; a question that a gate asks already leaves the tables. -/
theorem createJob_cases (clock : Clock) (db : Db) (spec : JobSpec)
    (contract : Option GateContract) : AddsLocks db (createJob clock db spec contract).1 ∨
      db.wakes.length < (createJob clock db spec contract).1.wakes.length := by
  unfold createJob
  split
  · exact Or.inl (AddsLocks.refl db)
  split
  · cases contract with
    | none => exact Or.inl (AddsLocks.refl db)
    | some contract =>
      dsimp only
      unfold createGateJob
      split
      · exact Or.inl (AddsLocks.refl db)
      have hregistered := registerHumanGateIn_tables (insertJob clock db spec) (nextJobId db)
        (some contract)
      dsimp only
      split
      · exact Or.inl (AddsLocks.refl db)
      split
      · refine Or.inr ?_
        rw [notify_wakes_length, hregistered.wakes]
        exact Nat.lt_succ_self _
      · -- the inserted row is deleted again
        refine Or.inl ⟨?_, hregistered.dependencies, hregistered.wakes,
          hregistered.workItemFileLocks, hregistered.jobFileLocks⟩
        have hfresh : deleteWhere (fun job => job.id == nextJobId db) db.jobs = db.jobs := by
          refine List.filter_eq_self.mpr fun job hjob => ?_
          have hlt : job.id < nextJobId db :=
            lt_nextJobId (List.mem_append_left _ (List.mem_map_of_mem hjob))
          rw [Bool.not_eq_true', beq_eq_false_iff_ne]
          exact hlt.ne
        dsimp only
        rw [hregistered.jobs, insertJob, deleteWhere, List.filter_append]
        rw [deleteWhere] at hfresh
        rw [hfresh]
        simp [newJob]
  · refine Or.inr ?_
    rw [notify_wakes_length]
    exact Nat.lt_succ_self _

/-- A dependency writer that sends no wake leaves the dependencies as they are. -/
theorem dependencies_of_quiet {db : Db} {op : DependencyOp} (h : op.wakes db = 0) :
    (op.exec db).dependencies = db.dependencies := by
  cases op with
  | add j d kind =>
    rw [DependencyOp.exec]
    cases hadd : addDependency db j d kind with
    | error e => rfl
    | ok pair =>
      obtain ⟨db', b⟩ := pair
      rw [Db.commit_ok]
      cases b with
      | true =>
        by_contra hne
        simp [DependencyOp.wakes, hadd, hne] at h
      | false => rw [addDependency_refused hadd]
  | remove j d =>
    have hnone : changes (Dependency.isEdge j d) db.dependencies = 0 := by
      by_contra hne
      simp [DependencyOp.wakes, removeDependency, Nat.pos_of_ne_zero hne] at h
    refine List.filter_eq_self.mpr fun e he => ?_
    have hnot := List.countP_eq_zero.mp hnone e he
    rw [Bool.not_eq_true] at hnot
    rw [hnot]
    rfl
  | rewire j o d kind =>
    rw [DependencyOp.exec]
    cases hrewire : rewireDependency db j o d kind with
    | error e => rfl
    | ok pair =>
      obtain ⟨db', b⟩ := pair
      rw [Db.commit_ok]
      cases b with
      | true => simp [DependencyOp.wakes, hrewire] at h
      | false => rw [rewireDependency_refused hrewire]
  | rewireChain j o ids kind =>
    rw [DependencyOp.exec]
    cases hrewire : rewireDependencyChain db j o ids kind with
    | error e => rfl
    | ok pair =>
      obtain ⟨db', details⟩ := pair
      rw [Db.commit_ok]
      cases hrewired : details.rewired with
      | true => simp [DependencyOp.wakes, hrewire, hrewired] at h
      | false => rw [rewireDependencyChain_refused hrewire hrewired]

/-! ## 4. Every operation -/

/-- **An operation that sends no wake** leases one job at most and adds lock rows. -/
theorem QueueWrite.quiet {db : Db} {op : QueueWrite} (hids : (db.jobs.map Job.id).Nodup)
    (h : op.wakes db = 0) : QuietWrite db (op.exec db) (op.leases db) := by
  obtain ⟨hwakes, hdependency⟩ := Nat.add_eq_zero_iff.mp h
  have hle : (op.exec db).wakes.length ≤ db.wakes.length := Nat.sub_eq_zero_iff_le.mp hwakes
  have hsame : ∀ db' : Db, db' = db ∨ db.wakes.length < db'.wakes.length →
      db'.wakes.length ≤ db.wakes.length → QuietWrite db db' none := by
    rintro db' (rfl | hlt) hle
    · exact QuietWrite.refl _
    · omega
  cases op with
  | dependency op =>
    rw [exec, op.exec_frame db, dependencies_of_quiet hdependency]
    exact QuietWrite.refl db
  | acquireLease clock jobId ownerId durationMs =>
    exact quiet_acquireLease clock db jobId ownerId durationMs hids
  | acquireLeaseWithWriteLocks env clock jobId ownerId durationMs conflict =>
    exact quiet_acquireLeaseWithWriteLocks hle
  | releaseLease clock jobId leaseToken finalStatus readyAt =>
    exact hsame _ (releaseLease_cases clock db jobId leaseToken finalStatus readyAt) hle
  | updateJobStatus clock jobId status options =>
    exact hsame _ (updateJobStatus_cases clock db jobId status options) hle
  | createJob clock spec contract =>
    rcases createJob_cases clock db spec contract with hkept | hlt
    · exact hkept.quiet
    · exact absurd hlt hle.not_gt
  | releaseLocks op =>
    have hcases := (lockRelease_cases db op).imp_right fun hwoken => hwoken.ge
    exact hsame _ hcases hle
  | verifyOrAcquireJobWriteLockForPath env jobId filePath conflict =>
    exact quiet_verifyOrAcquire hle
  | acquireAdditionalJobWritePaths env jobId paths conflict =>
    exact quiet_acquireAdditional env db jobId paths
  | recordFileLaneWait detail => exact QuietWrite.refl db
  | clearFileLaneWaitsForJob jobId => exact QuietWrite.refl db

end PosseClient
