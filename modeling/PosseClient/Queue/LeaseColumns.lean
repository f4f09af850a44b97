/-
# The columns of a job that leases do not write

A lease transaction writes the status, the lease columns, the times of a job and two flags of
its payload.  `Kept π` says that a transaction keeps the projection `π` of every job and the
rows of `job_attempts`; it holds of every lease function for a projection that reads none of
those columns (`IgnoresLease`).

* The requeues also refund an attempt: they keep a projection that ignores the count.
* `incrementAndCreateAttempt` is not here: it adds an attempt.
-/
import PosseClient.Queue.LeaseFencing

namespace PosseClient

/-! ## 1. Projections and what keeps them -/

section Kept

variable {β : Type}

/-- The projection reads none of the columns a lease function writes. -/
structure IgnoresLease (π : Job → β) : Prop where
  columns : ∀ (job : Job) status owner token expires ready started finished,
    π { job with
      status := status, leaseOwner := owner, leaseToken := token, leaseExpiresAt := expires,
      readyAt := ready, startedAt := started, finishedAt := finished } = π job
  payload : ∀ (job : Job) assessOnly syncs,
    π { job with
      payload := { job.payload with assessOnly := assessOnly, crossWiFileSyncs := syncs } } =
        π job

/-- The projection does not read the attempt count either. -/
def IgnoresCount (π : Job → β) : Prop :=
  ∀ (job : Job) count, π { job with attemptCount := count } = π job

/-- The projection of every job, and the attempts, are unchanged. -/
structure Kept (π : Job → β) (db db' : Db) : Prop where
  rows : db'.jobs.map (fun job => (job.id, π job)) = db.jobs.map (fun job => (job.id, π job))
  attempts : db'.attempts = db.attempts

variable {π : Job → β}

theorem Kept.refl (db : Db) : Kept π db db := ⟨rfl, rfl⟩

theorem Kept.trans {a b c : Db} (h : Kept π a b) (h' : Kept π b c) : Kept π a c :=
  ⟨h'.rows.trans h.rows, h'.attempts.trans h.attempts⟩

theorem Kept.of_locksOnly {db db' : Db} (h : LocksOnly db db') : Kept π db db' :=
  ⟨by rw [h.jobs], h.attempts⟩

theorem Kept.ids {db db' : Db} (h : Kept π db db') :
    db'.jobs.map Job.id = db.jobs.map Job.id := by
  have hfst := congrArg (List.map Prod.fst) h.rows
  rwa [List.map_map, List.map_map] at hfst

/-- A read by id is of a row with the same projection. -/
theorem lookup_map_of_rows {id : ℕ} {jobs jobs' : List Job}
    (h : jobs'.map (fun job => (job.id, π job)) = jobs.map (fun job => (job.id, π job))) :
    (Table.lookup Job.id id jobs').map π = (Table.lookup Job.id id jobs).map π := by
  induction jobs generalizing jobs' with
  | nil =>
    rw [List.map_nil, List.map_eq_nil_iff] at h
    rw [h]
  | cons job jobs ih =>
    obtain ⟨job', rest, rfl, hpair, hrest⟩ := List.map_eq_cons_iff.mp h
    obtain ⟨hid, hπ⟩ := Prod.mk.inj hpair
    have htail := ih hrest
    unfold Table.lookup at htail ⊢
    rw [List.find?_cons, List.find?_cons, hid]
    cases hd : decide (job.id = id) with
    | false => exact htail
    | true => simp [hπ]

theorem Kept.getJob {db db' : Db} (h : Kept π db db') (id : ℕ) :
    (db'.getJob id).map π = (db.getJob id).map π :=
  lookup_map_of_rows h.rows

theorem kept_updateJobs {db : Db} {p : Job → Bool} {f : Job → Job}
    (hid : ∀ job, p job = true → (f job).id = job.id)
    (hf : ∀ job ∈ db.jobs, p job = true → π (f job) = π job) : Kept π db (db.updateJobs p f) := by
  refine ⟨?_, rfl⟩
  simp only [Db.updateJobs, Table.updateWhere, List.map_map]
  refine List.map_congr_left fun job hjob => ?_
  cases hp : p job with
  | false => simp [hp]
  | true => simp [hp, hid job hp, hf job hjob hp]

theorem kept_foldl {α : Type} {step : Db → α → Db} {as : List α}
    (hstep : ∀ d, ∀ a ∈ as, Kept π d (step d a)) (db : Db) : Kept π db (as.foldl step db) := by
  induction as generalizing db with
  | nil => exact Kept.refl db
  | cons a as ih =>
    exact (hstep db a List.mem_cons_self).trans
      (ih (fun d b hb => hstep d b (List.mem_cons_of_mem a hb)) (step db a))

theorem kept_notify (db : Db) (wake : Wake) : Kept π db (db.notify wake) := ⟨rfl, rfl⟩

theorem kept_drawTokens (db : Db) (count : ℕ) : Kept π db (db.drawTokens count) := ⟨rfl, rfl⟩

theorem kept_releaseJobLocksForStatus (db : Db) (jobId : ℕ) (status : JobStatus) :
    Kept π db (releaseJobLocksForStatus db jobId status) :=
  Kept.of_locksOnly (locksOnly_releaseJobLocksForStatus db jobId status)

end Kept

/-! ## 2. The lease functions -/

section Lease

variable {β : Type} {π : Job → β}

theorem IgnoresLease.unlease (h : IgnoresLease π) (job : Job) : π job.unlease = π job :=
  h.columns job job.status none none none job.readyAt job.startedAt job.finishedAt

theorem IgnoresLease.lease (h : IgnoresLease π) (job : Job) (ownerId : String) (token : ℕ)
    (expiresAt : ℤ) : π (job.lease ownerId token expiresAt) = π job :=
  h.columns job .leased (some ownerId) (some token) (some expiresAt) job.readyAt job.startedAt
    job.finishedAt

theorem IgnoresLease.setStatus (h : IgnoresLease π) (clock : Clock) (status : JobStatus)
    (job : Job) : π (job.setStatus clock status) = π job := by
  unfold Job.setStatus
  dsimp only
  split
  · exact h.columns job status _ _ _ _ _ _
  · exact h.columns job status none none none _ _ _

theorem kept_settleHumanGateResumeEffects (db : Db) (jobId : ℕ) (state : EffectState) :
    Kept π db (settleHumanGateResumeEffects db jobId state) := ⟨rfl, rfl⟩

theorem kept_consumePendingHumanGateResume (h : IgnoresLease π) (db : Db) (jobId : ℕ) :
    Kept π db (consumePendingHumanGateResume db jobId).1 := by
  unfold consumePendingHumanGateResume
  split
  · exact Kept.refl db
  · split
    · exact kept_settleHumanGateResumeEffects db jobId _
    · split_ifs with hqueued hresumable htoken
      · exact kept_settleHumanGateResumeEffects db jobId _
      · exact Kept.refl db
      · refine Kept.trans ?_ (kept_settleHumanGateResumeEffects _ jobId _)
        exact kept_updateJobs (fun _ _ => rfl)
          (fun job _ _ => h.columns job .queued none none none _ _ none)
      · exact kept_settleHumanGateResumeEffects db jobId _

theorem kept_cancelUnusedReviewedTransfers (h : IgnoresLease π) (db : Db) (jobId : ℕ)
    (hids : (db.jobs.map Job.id).Nodup) :
    Kept π db (cancelUnusedReviewedTransfers db jobId) := by
  unfold cancelUnusedReviewedTransfers
  cases hjob : db.getJob jobId with
  | none => exact Kept.refl db
  | some job =>
    dsimp only
    split
    · exact Kept.refl db
    · split
      · exact Kept.refl db
      · refine Kept.trans ?_ (kept_notify _ _)
        have hlocks := locksOnly_returnTransfers db (by assumption) jobId
          (job.payload.crossWiFileSyncs.filter ReviewedTransfer.isUnused)
        refine (Kept.of_locksOnly hlocks).trans (kept_updateJobs (fun _ _ => rfl) ?_)
        intro j hj hp
        -- the payload that is written is the one that was read from this row
        rw [hlocks.jobs] at hj
        have hsame : j = job := Table.eq_of_key_eq hids hj (Table.lookup_mem hjob)
          ((beq_iff_eq.mp hp).trans (Table.lookup_key hjob).symm)
        subst hsame
        exact h.payload j _ _

theorem kept_markAssessOnly (h : IgnoresLease π) (db : Db) (jobId : ℕ) (wasAssessing : Bool) :
    Kept π db (markAssessOnly db jobId wasAssessing) := by
  unfold markAssessOnly
  split
  · exact kept_updateJobs (fun _ _ => rfl)
      (fun job _ _ => h.payload job true job.payload.crossWiFileSyncs)
  · exact Kept.refl db

theorem kept_acquireLease (h : IgnoresLease π) (clock : Clock) (db : Db) (jobId : ℕ)
    (ownerId : String) (durationMs : ℤ) :
    Kept π db (acquireLease clock db jobId ownerId durationMs).1 := by
  unfold acquireLease
  dsimp only
  split
  · exact Kept.refl db
  · refine Kept.trans ?_ (kept_drawTokens _ _)
    exact kept_updateJobs (fun _ _ => rfl) (fun job _ _ => h.lease job _ _ _)

theorem kept_reserveReviewedHandoffs (h : IgnoresLease π) {db : Db} {job : Job}
    (transfers : List ReviewedTransfer)
    (hpayload : ∀ j ∈ db.jobs, j.id = job.id → j.payload = job.payload) :
    Kept π db (reserveReviewedHandoffs db job transfers) := by
  unfold reserveReviewedHandoffs
  split
  · exact Kept.refl db
  · refine Kept.trans ?_ (kept_notify _ _)
    refine Kept.trans ?_ (kept_drawTokens _ _)
    have hlocks := locksOnly_releaseTransferredFiles db (numberTransfers db transfers)
    refine (Kept.of_locksOnly hlocks).trans (kept_updateJobs (fun _ _ => rfl) ?_)
    intro j hj hp
    rw [hlocks.jobs] at hj
    rw [← hpayload j hj (beq_iff_eq.mp hp)]
    exact h.payload j j.payload.assessOnly _

/-- A lease writes the row it read. -/
theorem leaseQueuedJob_payload {clock : Clock} {db : Db} {fresh : Job} {ownerId : String}
    {durationMs : ℤ} (hids : (db.jobs.map Job.id).Nodup) (hfresh : fresh ∈ db.jobs) :
    ∀ j ∈ (leaseQueuedJob clock db fresh.id ownerId durationMs).jobs, j.id = fresh.id →
      j.payload = fresh.payload := by
  intro j hj hid
  rcases Table.mem_updateWhere_cases hj with ⟨hmem, -⟩ | ⟨before, hmem, -, rfl⟩
  · rw [Table.eq_of_key_eq hids hmem hfresh hid]
  · have hsame : before = fresh := Table.eq_of_key_eq hids hmem hfresh hid
    rw [hsame]
    rfl

theorem kept_leaseWithLocks (h : IgnoresLease π) (clock : Clock) {db : Db} {fresh : Job}
    (scope : WriteScope) (transfers : List ReviewedTransfer) (ownerId : String) (durationMs : ℤ)
    (hids : (db.jobs.map Job.id).Nodup) (hfresh : fresh ∈ db.jobs) :
    Kept π db (leaseWithLocks clock db fresh scope transfers ownerId durationMs).1 := by
  refine Kept.trans ?_ (Kept.of_locksOnly (locksOnly_insertLeaseLocks _ fresh scope _))
  refine Kept.trans ?_ (kept_reserveReviewedHandoffs h transfers
    (leaseQueuedJob_payload hids hfresh))
  refine Kept.trans ?_ (kept_drawTokens _ _)
  exact kept_updateJobs (fun _ _ => rfl) (fun job _ _ => h.lease job _ _ _)

theorem kept_acquireLeaseWithWriteLocks (h : IgnoresLease π) (env : AdmissionEnv) (clock : Clock)
    (db : Db) (jobId : ℕ) (ownerId : String) (durationMs : ℤ)
    (hids : (db.jobs.map Job.id).Nodup) :
    Kept π db (acquireLeaseWithWriteLocks env clock db jobId ownerId durationMs).1 := by
  have hcleaned : ∀ {db' : Db}, db' = db ∨ db' = cleanupStaleFileLocks db → LocksOnly db db' := by
    rintro db' (rfl | rfl)
    · exact LocksOnly.refl _
    · exact locksOnly_cleanupStaleFileLocks db
  rcases acquireLeaseWithWriteLocks_cases env clock db jobId ownerId durationMs with
    ⟨db', heq, hdb'⟩ | ⟨fresh, db₁, transfers, hpasses, heq⟩
  · rw [heq]
    exact Kept.of_locksOnly (hcleaned hdb')
  · have hlocks := hcleaned hpasses.cleaned
    rw [heq]
    refine (Kept.of_locksOnly hlocks).trans (kept_leaseWithLocks h clock _ transfers ownerId
      durationMs ?_ ?_)
    · rw [hlocks.jobs]
      exact hids
    · rw [hlocks.jobs]
      exact Table.lookup_mem hpasses.job

theorem kept_renewLease (h : IgnoresLease π) (clock : Clock) (db : Db) (jobId token : ℕ)
    (durationMs : ℤ) : Kept π db (renewLease clock db jobId token durationMs).1 :=
  kept_updateJobs (fun _ _ => rfl)
    (fun job _ _ => h.columns job job.status job.leaseOwner job.leaseToken _ _ _ _)

theorem kept_releaseLease (h : IgnoresLease π) (clock : Clock) (db : Db) (jobId token : ℕ)
    (finalStatus : JobStatus) (readyAt : Option ℤ) (hids : (db.jobs.map Job.id).Nodup) :
    Kept π db (releaseLease clock db jobId token finalStatus readyAt).1 := by
  unfold releaseLease
  dsimp only
  split
  · exact Kept.refl db
  · refine Kept.trans ?_ (kept_notify _ _)
    refine Kept.trans ?_ (kept_releaseJobLocksForStatus _ jobId _)
    refine Kept.trans ?_ (kept_consumePendingHumanGateResume h _ jobId)
    have hreleased : Kept π db (db.updateJobs (Job.isLeasedBy jobId token)
        (Job.release clock finalStatus readyAt)) :=
      kept_updateJobs (fun _ _ => rfl) (fun job _ _ => h.columns job _ none none none _ _ _)
    split
    · exact hreleased.trans (kept_cancelUnusedReviewedTransfers h _ jobId (hreleased.ids ▸ hids))
    · exact hreleased

theorem kept_setLeasedStatus (h : IgnoresLease π) (db : Db) (jobId token : ℕ)
    (status : JobStatus) : Kept π db (setLeasedStatus db jobId token status) :=
  kept_updateJobs (fun _ _ => rfl)
    (fun job _ _ => h.columns job status job.leaseOwner job.leaseToken _ _ _ _)

theorem kept_acquireAssessmentBarrier (h : IgnoresLease π) (clock : Clock) (db : Db)
    (jobId token : ℕ) (preserveStatus : Bool) :
    Kept π db (acquireAssessmentBarrier clock db jobId token preserveStatus).1 := by
  have hraise : ∀ fresh status, Kept π db (raiseAssessmentBarrier db fresh token status) := by
    intro fresh status
    unfold raiseAssessmentBarrier
    dsimp only
    split
    · exact (kept_setLeasedStatus h db _ _ _).trans
        (Kept.of_locksOnly (locksOnly_insertJobLocks _ _ _))
    · exact kept_setLeasedStatus h db _ _ _
  unfold acquireAssessmentBarrier
  split
  · exact Kept.refl db
  · split_ifs with hinvalid hblocked hpreserve
    · exact Kept.refl db
    · exact Kept.refl db
    · exact hraise _ _
    · exact (hraise _ _).trans (kept_notify _ _)

theorem kept_clearParkedLease (h : IgnoresLease π) (db : Db) (row : Job) :
    Kept π db (clearParkedLease db row) := by
  unfold clearParkedLease
  split
  · exact Kept.refl db
  · have hunleased : Kept π db (db.updateJobs (isParkedRow row) Job.unlease) :=
      kept_updateJobs (fun _ _ => rfl) (fun job _ _ => h.unlease job)
    have hcleared := hunleased.trans (kept_consumePendingHumanGateResume h _ row.id)
    dsimp only
    split
    · exact (hcleared.trans (kept_releaseJobLocksForStatus _ _ _)).trans (kept_notify _ _)
    · exact hcleared

theorem kept_clearParkedLeases (h : IgnoresLease π) (stale : List Job) (db : Db) :
    Kept π db (clearParkedLeases stale db) :=
  kept_foldl (fun d row _ => kept_clearParkedLease h d row) db

theorem kept_settleRequeuedJob (h : IgnoresLease π) (db : Db) (jobId : ℕ) (status : JobStatus) :
    Kept π db (settleRequeuedJob db jobId status) := by
  unfold settleRequeuedJob
  refine Kept.trans ?_ (kept_releaseJobLocksForStatus _ jobId _)
  split
  · exact kept_consumePendingHumanGateResume h db jobId
  · exact Kept.refl db

theorem kept_settleGateOfJob (db : Db) (jobId : ℕ) (status : JobStatus) :
    Kept π db (settleGateOfJob db jobId status) := by
  unfold settleGateOfJob
  dsimp only
  split
  · exact ⟨rfl, rfl⟩
  · exact ⟨rfl, rfl⟩
  · exact Kept.refl db

theorem kept_updateJobStatus (h : IgnoresLease π) (clock : Clock) (db : Db) (jobId : ℕ)
    (status : JobStatus) (options : StatusOptions) (hids : (db.jobs.map Job.id).Nodup) :
    Kept π db (updateJobStatus clock db jobId status options).1 := by
  have hupdated : Kept π db
      (db.updateJobs (statusUpdateApplies jobId options) (Job.setStatus clock status)) :=
    kept_updateJobs (fun job _ => setStatus_id clock status job)
      (fun job _ _ => h.setStatus clock status job)
  have hsettled : ∀ isGate : Bool, Kept π db
      (if isGate then settleGateOfJob (db.updateJobs (statusUpdateApplies jobId options)
          (Job.setStatus clock status)) jobId status
        else db.updateJobs (statusUpdateApplies jobId options) (Job.setStatus clock status)) := by
    intro isGate
    split
    · exact hupdated.trans (kept_settleGateOfJob _ jobId status)
    · exact hupdated
  unfold updateJobStatus
  dsimp only
  split
  · exact Kept.refl db
  · refine Kept.trans ?_ (kept_notify _ _)
    refine Kept.trans ?_ (kept_releaseJobLocksForStatus _ jobId _)
    split
    · exact (hsettled _).trans
        (kept_cancelUnusedReviewedTransfers h _ jobId ((hsettled _).ids ▸ hids))
    · exact hsettled _

end Lease

end PosseClient
