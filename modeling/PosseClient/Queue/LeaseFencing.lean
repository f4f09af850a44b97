/-
# Lease fencing

A worker that lost its lease must not be able to settle the job another worker owns.  Lease
tokens are drawn once, so it is enough that no transaction puts a token into a row that did not
hold it, unless it has just drawn it.

* `Fenced` is what every transaction does to the lease columns; one lemma for each of them.
* `LeasesWellFormed` and `Cleared` are kept by every fenced step, hence by every run.
* `lease_fencing` adds what the guards of the writers and of the sweep make of them: a cleared
  token is refused by every call, and a valid lease is not reclaimed.
-/
import PosseClient.Queue.Leases

namespace PosseClient

/-! ## 1. What a transaction may do to a token -/

/-- Where the token of a row comes from, for a transaction that starts in `db` and ends with
`drawn` tokens drawn: the row has none, or one the transaction drew for a job it leased, or the
one the job had, in a status that holds a lease or did not change. -/
def TokenFrom (db : Db) (drawn : ℕ) (job : Job) : Prop :=
  job.leaseToken = none ∨
  (∃ token, job.leaseToken = some token ∧ db.nextToken ≤ token ∧ token < drawn ∧
    job.status ∈ leaseHoldingStatuses) ∨
  ∃ before ∈ db.jobs, before.id = job.id ∧ before.leaseToken = job.leaseToken ∧
    (job.status ∈ leaseHoldingStatuses ∨ job.status = before.status)

/-- What every transaction does to the lease columns. -/
structure Fenced (db db' : Db) : Prop where
  tokens : db.nextToken ≤ db'.nextToken
  ids : db'.jobs.map Job.id = db.jobs.map Job.id
  rows : ∀ job ∈ db'.jobs, TokenFrom db db'.nextToken job

theorem Fenced.of_jobs_eq {db db' : Db} (hjobs : db'.jobs = db.jobs)
    (htokens : db'.nextToken = db.nextToken) : Fenced db db' := by
  refine ⟨htokens.ge, by rw [hjobs], fun job hjob => ?_⟩
  rw [hjobs] at hjob
  exact Or.inr (Or.inr ⟨job, hjob, rfl, rfl, Or.inr rfl⟩)

theorem Fenced.refl (db : Db) : Fenced db db := Fenced.of_jobs_eq rfl rfl

theorem Fenced.of_locksOnly {db db' : Db} (h : LocksOnly db db') : Fenced db db' :=
  Fenced.of_jobs_eq h.jobs h.nextToken

theorem Fenced.trans {a b c : Db} (h : Fenced a b) (h' : Fenced b c) : Fenced a c := by
  refine ⟨h.tokens.trans h'.tokens, h'.ids.trans h.ids, fun job hjob => ?_⟩
  rcases h'.rows job hjob with hnone | ⟨token, htoken, hlow, hhigh, hstatus⟩ |
    ⟨mid, hmid, hid, hkept, hstatus⟩
  · exact Or.inl hnone
  · exact Or.inr (Or.inl ⟨token, htoken, h.tokens.trans hlow, hhigh, hstatus⟩)
  · -- the token was in the row between the two transactions
    rcases h.rows mid hmid with hnone | ⟨token, htoken, hlow, hhigh, hmidStatus⟩ |
      ⟨before, hbefore, hid', hkept', hmidStatus⟩
    · exact Or.inl (hkept ▸ hnone)
    · refine Or.inr (Or.inl ⟨token, hkept ▸ htoken, hlow, hhigh.trans_le h'.tokens, ?_⟩)
      rcases hstatus with hholding | hsame
      · exact hholding
      · exact hsame ▸ hmidStatus
    · refine Or.inr (Or.inr ⟨before, hbefore, hid'.trans hid, hkept'.trans hkept, ?_⟩)
      rcases hstatus with hholding | hsame
      · exact Or.inl hholding
      · rcases hmidStatus with hholding | hsame'
        · exact Or.inl (hsame ▸ hholding)
        · exact Or.inr (hsame.trans hsame')

/-- An update of jobs that clears the token of a row, or keeps it with a status that holds a
lease or with the status the row had. -/
theorem fenced_updateJobs {db : Db} {p : Job → Bool} {f : Job → Job}
    (hid : ∀ job, p job = true → (f job).id = job.id)
    (hf : ∀ job ∈ db.jobs, p job = true → (f job).leaseToken = none ∨
      ((f job).leaseToken = job.leaseToken ∧
        ((f job).status ∈ leaseHoldingStatuses ∨ (f job).status = job.status))) :
    Fenced db (db.updateJobs p f) := by
  refine ⟨le_rfl, Table.map_key_updateWhere hid, fun job hjob => ?_⟩
  rcases Table.mem_updateWhere_cases hjob with ⟨hmem, -⟩ | ⟨before, hmem, hp, rfl⟩
  · exact Or.inr (Or.inr ⟨job, hmem, rfl, rfl, Or.inr rfl⟩)
  · rcases hf before hmem hp with hnone | ⟨hkept, hstatus⟩
    · exact Or.inl hnone
    · exact Or.inr (Or.inr ⟨before, hmem, (hid before hp).symm, hkept.symm, hstatus⟩)

theorem fenced_foldl {α : Type} {step : Db → α → Db} (hstep : ∀ d a, Fenced d (step d a)) :
    ∀ (as : List α) (db : Db), Fenced db (as.foldl step db)
  | [], db => Fenced.refl db
  | a :: as, db => (hstep db a).trans (fenced_foldl hstep as (step db a))

/-! ## 2. The parts the transactions share -/

theorem fenced_notify (db : Db) (wake : Wake) : Fenced db (db.notify wake) :=
  Fenced.of_locksOnly (locksOnly_notify db wake)

theorem fenced_releaseJobLocksForStatus (db : Db) (jobId : ℕ) (status : JobStatus) :
    Fenced db (releaseJobLocksForStatus db jobId status) :=
  Fenced.of_locksOnly (locksOnly_releaseJobLocksForStatus db jobId status)

theorem fenced_settleHumanGateResumeEffects (db : Db) (jobId : ℕ) (state : EffectState) :
    Fenced db (settleHumanGateResumeEffects db jobId state) :=
  Fenced.of_jobs_eq rfl rfl

theorem fenced_consumePendingHumanGateResume (db : Db) (jobId : ℕ) :
    Fenced db (consumePendingHumanGateResume db jobId).1 := by
  unfold consumePendingHumanGateResume
  split
  · exact Fenced.refl db
  · split
    · exact fenced_settleHumanGateResumeEffects db jobId _
    · split_ifs with hqueued hresumable htoken
      · exact fenced_settleHumanGateResumeEffects db jobId _
      · exact Fenced.refl db
      · refine Fenced.trans ?_ (fenced_settleHumanGateResumeEffects _ jobId _)
        exact fenced_updateJobs (fun _ _ => rfl) (fun _ _ _ => Or.inl rfl)
      · exact fenced_settleHumanGateResumeEffects db jobId _

theorem fenced_cancelUnusedReviewedTransfers (db : Db) (jobId : ℕ) :
    Fenced db (cancelUnusedReviewedTransfers db jobId) := by
  unfold cancelUnusedReviewedTransfers
  split
  · exact Fenced.refl db
  · dsimp only
    split
    · exact Fenced.refl db
    · split
      · exact Fenced.refl db
      · refine Fenced.trans ?_ (fenced_notify _ _)
        refine Fenced.trans ?_ (fenced_updateJobs (fun _ _ => rfl)
          (fun _ _ _ => Or.inr ⟨rfl, Or.inr rfl⟩))
        exact Fenced.of_locksOnly (locksOnly_returnTransfers db _ jobId _)

theorem fenced_markAssessOnly (db : Db) (jobId : ℕ) (wasAssessing : Bool) :
    Fenced db (markAssessOnly db jobId wasAssessing) := by
  unfold markAssessOnly
  split
  · exact fenced_updateJobs (fun _ _ => rfl) (fun _ _ _ => Or.inr ⟨rfl, Or.inr rfl⟩)
  · exact Fenced.refl db

theorem requeue_leaseToken (clock : Clock) (refunds : Bool) (job : Job) :
    (job.requeue clock refunds).leaseToken = none := by
  unfold Job.requeue
  dsimp only
  split
  · rfl
  · rfl

theorem requeue_id (clock : Clock) (refunds : Bool) (job : Job) :
    (job.requeue clock refunds).id = job.id := by
  unfold Job.requeue
  dsimp only
  split
  · rfl
  · rfl

/-! ## 3. The transactions -/

theorem lease_leaseHolding (job : Job) (ownerId : String) (token : ℕ) (expiresAt : ℤ) :
    (job.lease ownerId token expiresAt).status ∈ leaseHoldingStatuses := by
  simp [Job.lease, leaseHoldingStatuses]

/-- A lease writes the token it has just drawn. -/
theorem fenced_lease {db : Db} {p : Job → Bool} {ownerId : String} {expiresAt : ℤ} :
    Fenced db
      ((db.updateJobs p (fun job => job.lease ownerId db.nextToken expiresAt)).drawTokens 1) := by
  refine ⟨Nat.le_succ _, Table.map_key_updateWhere (fun _ _ => rfl), fun job hjob => ?_⟩
  rcases Table.mem_updateWhere_cases hjob with ⟨hmem, -⟩ | ⟨before, hmem, hp, rfl⟩
  · exact Or.inr (Or.inr ⟨job, hmem, rfl, rfl, Or.inr rfl⟩)
  · exact Or.inr (Or.inl ⟨db.nextToken, rfl, le_rfl, Nat.lt_succ_self _,
      lease_leaseHolding before ownerId _ _⟩)

theorem fenced_acquireLease (clock : Clock) (db : Db) (jobId : ℕ) (ownerId : String)
    (durationMs : ℤ) : Fenced db (acquireLease clock db jobId ownerId durationMs).1 := by
  unfold acquireLease
  dsimp only
  split
  · exact Fenced.refl db
  · exact fenced_lease

theorem fenced_drawTokens (db : Db) (count : ℕ) : Fenced db (db.drawTokens count) :=
  ⟨Nat.le_add_right _ _, rfl, fun job hjob => Or.inr (Or.inr ⟨job, hjob, rfl, rfl, Or.inr rfl⟩)⟩

theorem fenced_reserveReviewedHandoffs (db : Db) (job : Job) (transfers : List ReviewedTransfer) :
    Fenced db (reserveReviewedHandoffs db job transfers) := by
  unfold reserveReviewedHandoffs
  split
  · exact Fenced.refl db
  · refine Fenced.trans (Fenced.trans ?_ (fenced_drawTokens _ _)) (fenced_notify _ _)
    refine Fenced.trans ?_ (fenced_updateJobs (fun _ _ => rfl)
      (fun _ _ _ => Or.inr ⟨rfl, Or.inr rfl⟩))
    exact Fenced.of_locksOnly
      (locksOnly_releaseTransferredFiles db (numberTransfers db transfers))

theorem fenced_leaseWithLocks (clock : Clock) (db : Db) (fresh : Job) (scope : WriteScope)
    (transfers : List ReviewedTransfer) (ownerId : String) (durationMs : ℤ) :
    Fenced db (leaseWithLocks clock db fresh scope transfers ownerId durationMs).1 := by
  refine Fenced.trans ?_ (Fenced.of_locksOnly (locksOnly_insertLeaseLocks _ fresh scope _))
  refine Fenced.trans ?_ (fenced_reserveReviewedHandoffs _ fresh transfers)
  exact fenced_lease

theorem fenced_acquireLeaseWithWriteLocks (env : AdmissionEnv) (clock : Clock) (db : Db)
    (jobId : ℕ) (ownerId : String) (durationMs : ℤ) :
    Fenced db (acquireLeaseWithWriteLocks env clock db jobId ownerId durationMs).1 := by
  have hcleaned : ∀ {db' : Db}, db' = db ∨ db' = cleanupStaleFileLocks db → Fenced db db' := by
    rintro db' (rfl | rfl)
    · exact Fenced.refl _
    · exact Fenced.of_locksOnly (locksOnly_cleanupStaleFileLocks db)
  rcases acquireLeaseWithWriteLocks_cases env clock db jobId ownerId durationMs with
    ⟨db', heq, hdb'⟩ | ⟨fresh, db₁, transfers, hpasses, heq⟩
  · rw [heq]
    exact hcleaned hdb'
  · rw [heq]
    exact (hcleaned hpasses.cleaned).trans
      (fenced_leaseWithLocks clock db₁ fresh _ transfers ownerId durationMs)

theorem fenced_renewLease (clock : Clock) (db : Db) (jobId token : ℕ) (durationMs : ℤ) :
    Fenced db (renewLease clock db jobId token durationMs).1 :=
  fenced_updateJobs (fun _ _ => rfl) (fun _ _ _ => Or.inr ⟨rfl, Or.inr rfl⟩)

theorem fenced_releaseLease (clock : Clock) (db : Db) (jobId token : ℕ) (finalStatus : JobStatus)
    (readyAt : Option ℤ) : Fenced db (releaseLease clock db jobId token finalStatus readyAt).1 := by
  unfold releaseLease
  dsimp only
  split
  · exact Fenced.refl db
  · refine Fenced.trans ?_ (fenced_notify _ _)
    refine Fenced.trans ?_ (fenced_releaseJobLocksForStatus _ jobId _)
    refine Fenced.trans ?_ (fenced_consumePendingHumanGateResume _ jobId)
    have hreleased : Fenced db (db.updateJobs (Job.isLeasedBy jobId token)
        (Job.release clock finalStatus readyAt)) :=
      fenced_updateJobs (fun _ _ => rfl) (fun _ _ _ => Or.inl rfl)
    split
    · exact hreleased.trans (fenced_cancelUnusedReviewedTransfers _ jobId)
    · exact hreleased

theorem fenced_releaseLeaseWithoutAttemptPenalty (clock : Clock) (db : Db) (jobId token : ℕ)
    (finalStatus : JobStatus) (readyAt : Option ℤ) (attemptId : Option ℕ) :
    Fenced db (releaseLeaseWithoutAttemptPenalty clock db jobId token finalStatus readyAt
      attemptId).1 := by
  have hreleased := fenced_releaseLease clock db jobId token finalStatus readyAt
  unfold releaseLeaseWithoutAttemptPenalty
  dsimp only
  split
  · exact hreleased
  · split
    · split
      · exact hreleased.trans (Fenced.of_jobs_eq rfl rfl)
      · exact hreleased
    · split
      · exact hreleased.trans (fenced_updateJobs (fun _ _ => rfl)
          (fun _ _ _ => Or.inr ⟨rfl, Or.inr rfl⟩))
      · exact hreleased

theorem fenced_incrementAndCreateAttempt (clock : Clock) (db : Db) (jobId token : ℕ)
    (kind : AttemptKind) : Fenced db (incrementAndCreateAttempt clock db jobId token kind).1 := by
  unfold incrementAndCreateAttempt
  split
  · exact Fenced.refl db
  · have hcharged : Fenced db (db.updateJobs (fun j => j.id == jobId)
        (fun j => { j with attemptCount := j.attemptCount + 1 })) :=
      fenced_updateJobs (fun _ _ => rfl) (fun _ _ _ => Or.inr ⟨rfl, Or.inr rfl⟩)
    exact hcharged.trans (Fenced.of_jobs_eq rfl rfl)

theorem leaseIsValid_iff {clock : Clock} {token : ℕ} {job : Job} :
    leaseIsValid clock token job = true ↔ job.leaseToken = some token ∧
      job.status ∈ leaseHoldingStatuses ∧
      ∃ expiresAt, job.leaseExpiresAt = some expiresAt ∧ clock.graceCutoff ≤ expiresAt := by
  simp [leaseIsValid, Option.any_eq_true, and_assoc]

theorem fenced_setLeasedStatus {db : Db} {jobId token : ℕ} {status : JobStatus}
    (h : status ∈ leaseHoldingStatuses) : Fenced db (setLeasedStatus db jobId token status) :=
  fenced_updateJobs (fun _ _ => rfl) (fun _ _ _ => Or.inr ⟨rfl, Or.inl h⟩)

theorem fenced_raiseAssessmentBarrier {db : Db} {fresh : Job} {token : ℕ} {status : JobStatus}
    (h : status ∈ leaseHoldingStatuses) :
    Fenced db (raiseAssessmentBarrier db fresh token status) := by
  unfold raiseAssessmentBarrier
  dsimp only
  split
  · exact (fenced_setLeasedStatus h).trans (Fenced.of_locksOnly (locksOnly_insertJobLocks _ _ _))
  · exact fenced_setLeasedStatus h

theorem fenced_acquireAssessmentBarrier (clock : Clock) (db : Db) (jobId token : ℕ)
    (preserveStatus : Bool) :
    Fenced db (acquireAssessmentBarrier clock db jobId token preserveStatus).1 := by
  unfold acquireAssessmentBarrier
  split
  · exact Fenced.refl db
  · rename_i fresh hfresh
    split_ifs with hinvalid hblocked hpreserve
    · exact Fenced.refl db
    · exact Fenced.refl db
    · rw [Bool.not_eq_false, leaseIsValid_iff] at hinvalid
      exact fenced_raiseAssessmentBarrier hinvalid.2.1
    · exact (fenced_raiseAssessmentBarrier (by decide)).trans (fenced_notify _ _)

theorem fenced_clearParkedLease (db : Db) (row : Job) : Fenced db (clearParkedLease db row) := by
  unfold clearParkedLease
  split
  · exact Fenced.refl db
  · have hunleased : Fenced db (db.updateJobs (isParkedRow row) Job.unlease) :=
      fenced_updateJobs (fun _ _ => rfl) (fun _ _ _ => Or.inl rfl)
    have hcleared := hunleased.trans (fenced_consumePendingHumanGateResume _ row.id)
    dsimp only
    split
    · exact (hcleared.trans (fenced_releaseJobLocksForStatus _ _ _)).trans (fenced_notify _ _)
    · exact hcleared

theorem fenced_clearParkedLeases (stale : List Job) (db : Db) :
    Fenced db (clearParkedLeases stale db) :=
  fenced_foldl fenced_clearParkedLease stale db

theorem fenced_requeueExpiredLease (clock : Clock) (completedPlan : ℕ → Bool) (db : Db)
    (row : Job) : Fenced db (requeueExpiredLease clock completedPlan db row) := by
  unfold requeueExpiredLease
  dsimp only
  split_ifs
  · exact Fenced.refl db
  · refine Fenced.trans ?_ (fenced_releaseJobLocksForStatus _ _ _)
    exact fenced_updateJobs (fun _ _ => rfl) (fun _ _ _ => Or.inl rfl)
  · refine Fenced.trans ?_ (fenced_releaseJobLocksForStatus _ _ _)
    exact fenced_updateJobs (fun _ _ => rfl) (fun _ _ _ => Or.inl rfl)
  · refine Fenced.trans ?_ (fenced_markAssessOnly _ _ _)
    refine Fenced.trans ?_ (fenced_releaseJobLocksForStatus _ _ _)
    refine Fenced.trans ?_ (fenced_consumePendingHumanGateResume _ _)
    exact fenced_updateJobs (fun job _ => requeue_id clock _ job)
      (fun job _ _ => Or.inl (requeue_leaseToken clock _ job))

theorem fenced_requeueAll (clock : Clock) (completedPlan : ℕ → Bool) (expired : List Job)
    (db : Db) : Fenced db (requeueAll clock completedPlan expired db) := by
  have hfold := fenced_foldl (fenced_requeueExpiredLease clock completedPlan) expired db
  unfold requeueAll
  dsimp only
  split
  · exact hfold.trans (fenced_notify _ _)
  · exact hfold

theorem fenced_requeueExpiredLeases (clock : Clock) (completedPlan : ℕ → Bool) (db : Db) :
    Fenced db (requeueExpiredLeases clock completedPlan db) :=
  (fenced_clearParkedLeases _ db).trans (fenced_requeueAll clock completedPlan _ _)

theorem fenced_settleRequeuedJob (db : Db) (jobId : ℕ) (status : JobStatus) :
    Fenced db (settleRequeuedJob db jobId status) := by
  unfold settleRequeuedJob
  refine Fenced.trans ?_ (fenced_releaseJobLocksForStatus _ jobId _)
  split
  · exact fenced_consumePendingHumanGateResume db jobId
  · exact Fenced.refl db

theorem fenced_requeueOrphanedJob (clock : Clock) (db : Db) (row : Job) :
    Fenced db (requeueOrphanedJob clock db row) := by
  unfold requeueOrphanedJob
  dsimp only
  split_ifs
  · exact fenced_updateJobs (fun _ _ => rfl) (fun _ _ _ => Or.inl rfl)
  · exact Fenced.refl db
  · refine Fenced.trans ?_ (fenced_markAssessOnly _ _ _)
    exact fenced_updateJobs (fun job _ => requeue_id clock _ job)
      (fun job _ _ => Or.inl (requeue_leaseToken clock _ job))

theorem fenced_requeueOrphanedRows (clock : Clock) (db : Db) (force : Bool)
    (ownerId : Option String) (lockName : String) :
    Fenced db (requeueOrphanedRows clock db force ownerId lockName).1 :=
  fenced_foldl (fenced_requeueOrphanedJob clock) _ db

theorem fenced_requeueOrphanedJobs (clock : Clock) (db : Db) (force : Bool)
    (ownerId : Option String) (lockName : String) :
    Fenced db (requeueOrphanedJobs clock db force ownerId lockName) := by
  have hsettled := (fenced_requeueOrphanedRows clock db force ownerId lockName).trans
    (fenced_foldl (fun d row => fenced_settleRequeuedJob d row.id
      (if row.jobType = .atlasWarm then .failed else .queued))
      (requeueOrphanedRows clock db force ownerId lockName).2 _)
  unfold requeueOrphanedJobs
  dsimp only
  split
  · exact hsettled
  · exact hsettled.trans (fenced_notify _ _)

theorem fenced_requeueShutdownRow (clock : Clock) (db : Db) (jobId : ℕ) :
    Fenced db (requeueShutdownRow clock db jobId).1 := by
  unfold requeueShutdownRow
  split
  · exact Fenced.refl db
  · split
    · exact Fenced.refl db
    · refine Fenced.trans ?_ (fenced_consumePendingHumanGateResume _ jobId)
      refine Fenced.trans ?_ (fenced_markAssessOnly _ jobId _)
      exact fenced_updateJobs (fun job _ => requeue_id clock _ job)
        (fun job _ _ => Or.inl (requeue_leaseToken clock _ job))

theorem fenced_requeueForShutdown (clock : Clock) (db : Db) (jobId : ℕ) :
    Fenced db (requeueForShutdown clock db jobId).1 := by
  unfold requeueForShutdown
  dsimp only
  split
  · refine Fenced.trans ?_ (fenced_notify _ _)
    exact (fenced_requeueShutdownRow clock db jobId).trans
      (fenced_releaseJobLocksForStatus _ jobId _)
  · exact Fenced.refl db

theorem setStatus_token (clock : Clock) (status : JobStatus) (job : Job) :
    (job.setStatus clock status).leaseToken = none ∨
      ((job.setStatus clock status).leaseToken = job.leaseToken ∧
        (job.setStatus clock status).status ∈ leaseHoldingStatuses) := by
  unfold Job.setStatus
  dsimp only
  split
  · rename_i hholding
    exact Or.inr ⟨rfl, hholding⟩
  · exact Or.inl rfl

theorem setStatus_id (clock : Clock) (status : JobStatus) (job : Job) :
    (job.setStatus clock status).id = job.id := by
  unfold Job.setStatus
  dsimp only
  split
  · rfl
  · rfl

theorem fenced_settleGateOfJob (db : Db) (jobId : ℕ) (status : JobStatus) :
    Fenced db (settleGateOfJob db jobId status) := by
  unfold settleGateOfJob
  dsimp only
  split
  · exact Fenced.of_jobs_eq rfl rfl
  · exact Fenced.of_jobs_eq rfl rfl
  · exact Fenced.refl db

theorem fenced_updateJobStatus (clock : Clock) (db : Db) (jobId : ℕ) (status : JobStatus)
    (options : StatusOptions) : Fenced db (updateJobStatus clock db jobId status options).1 := by
  unfold updateJobStatus
  dsimp only
  split
  · exact Fenced.refl db
  · refine Fenced.trans ?_ (fenced_notify _ _)
    refine Fenced.trans ?_ (fenced_releaseJobLocksForStatus _ jobId _)
    have hupdated : Fenced db
        (db.updateJobs (statusUpdateApplies jobId options) (Job.setStatus clock status)) := by
      refine fenced_updateJobs (fun job _ => setStatus_id clock status job) (fun job _ _ => ?_)
      rcases setStatus_token clock status job with hnone | ⟨hkept, hholding⟩
      · exact Or.inl hnone
      · exact Or.inr ⟨hkept, Or.inl hholding⟩
    have hsettled : Fenced db
        (if ((db.updateJobs (statusUpdateApplies jobId options)
            (Job.setStatus clock status)).getJob jobId).any (fun job => job.jobType == .humanInput)
          then settleGateOfJob (db.updateJobs (statusUpdateApplies jobId options)
            (Job.setStatus clock status)) jobId status
          else db.updateJobs (statusUpdateApplies jobId options) (Job.setStatus clock status)) := by
      split
      · exact hupdated.trans (fenced_settleGateOfJob _ jobId status)
      · exact hupdated
    split
    · exact hsettled.trans (fenced_cancelUnusedReviewedTransfers _ jobId)
    · exact hsettled

/-! ## 4. Runs -/

/-- A lease transaction of any process, with everything it does not control.  The sweeps also
occur as their single transactions, over rows read at any earlier time. -/
inductive LeaseOp
  | acquireLease (clock : Clock) (jobId : ℕ) (ownerId : String) (durationMs : ℤ)
  | acquireLeaseWithWriteLocks (env : AdmissionEnv) (clock : Clock) (jobId : ℕ)
      (ownerId : String) (durationMs : ℤ)
  | renewLease (clock : Clock) (jobId token : ℕ) (durationMs : ℤ)
  | releaseLease (clock : Clock) (jobId token : ℕ) (finalStatus : JobStatus)
      (readyAt : Option ℤ)
  | releaseLeaseWithoutAttemptPenalty (clock : Clock) (jobId token : ℕ)
      (finalStatus : JobStatus) (readyAt : Option ℤ) (attemptId : Option ℕ)
  | incrementAndCreateAttempt (clock : Clock) (jobId token : ℕ) (kind : AttemptKind)
  | acquireAssessmentBarrier (clock : Clock) (jobId token : ℕ) (preserveStatus : Bool)
  | requeueExpiredLeases (clock : Clock) (completedPlan : ℕ → Bool)
  | clearParkedLeases (stale : List Job)
  | requeueAll (clock : Clock) (completedPlan : ℕ → Bool) (expired : List Job)
  | requeueOrphanedJobs (clock : Clock) (force : Bool) (ownerId : Option String)
      (lockName : String)
  | requeueOrphanedRows (clock : Clock) (force : Bool) (ownerId : Option String)
      (lockName : String)
  | requeueForShutdown (clock : Clock) (jobId : ℕ)
  | requeueShutdownRow (clock : Clock) (jobId : ℕ)
  | settleRequeuedJob (jobId : ℕ) (status : JobStatus)
  | updateJobStatus (clock : Clock) (jobId : ℕ) (status : JobStatus) (options : StatusOptions)

/-- One transaction. -/
def leaseStep (db : Db) : LeaseOp → Db
  | .acquireLease clock jobId ownerId durationMs =>
    (acquireLease clock db jobId ownerId durationMs).1
  | .acquireLeaseWithWriteLocks env clock jobId ownerId durationMs =>
    (acquireLeaseWithWriteLocks env clock db jobId ownerId durationMs).1
  | .renewLease clock jobId token durationMs => (renewLease clock db jobId token durationMs).1
  | .releaseLease clock jobId token finalStatus readyAt =>
    (releaseLease clock db jobId token finalStatus readyAt).1
  | .releaseLeaseWithoutAttemptPenalty clock jobId token finalStatus readyAt attemptId =>
    (releaseLeaseWithoutAttemptPenalty clock db jobId token finalStatus readyAt attemptId).1
  | .incrementAndCreateAttempt clock jobId token kind =>
    (incrementAndCreateAttempt clock db jobId token kind).1
  | .acquireAssessmentBarrier clock jobId token preserveStatus =>
    (acquireAssessmentBarrier clock db jobId token preserveStatus).1
  | .requeueExpiredLeases clock completedPlan => requeueExpiredLeases clock completedPlan db
  | .clearParkedLeases stale => clearParkedLeases stale db
  | .requeueAll clock completedPlan expired => requeueAll clock completedPlan expired db
  | .requeueOrphanedJobs clock force ownerId lockName =>
    requeueOrphanedJobs clock db force ownerId lockName
  | .requeueOrphanedRows clock force ownerId lockName =>
    (requeueOrphanedRows clock db force ownerId lockName).1
  | .requeueForShutdown clock jobId => (requeueForShutdown clock db jobId).1
  | .requeueShutdownRow clock jobId => (requeueShutdownRow clock db jobId).1
  | .settleRequeuedJob jobId status => settleRequeuedJob db jobId status
  | .updateJobStatus clock jobId status options =>
    (updateJobStatus clock db jobId status options).1

theorem fenced_leaseStep (db : Db) (op : LeaseOp) : Fenced db (leaseStep db op) := by
  cases op with
  | acquireLease clock jobId ownerId durationMs =>
    exact fenced_acquireLease clock db jobId ownerId durationMs
  | acquireLeaseWithWriteLocks env clock jobId ownerId durationMs =>
    exact fenced_acquireLeaseWithWriteLocks env clock db jobId ownerId durationMs
  | renewLease clock jobId token durationMs =>
    exact fenced_renewLease clock db jobId token durationMs
  | releaseLease clock jobId token finalStatus readyAt =>
    exact fenced_releaseLease clock db jobId token finalStatus readyAt
  | releaseLeaseWithoutAttemptPenalty clock jobId token finalStatus readyAt attemptId =>
    exact fenced_releaseLeaseWithoutAttemptPenalty clock db jobId token finalStatus readyAt
      attemptId
  | incrementAndCreateAttempt clock jobId token kind =>
    exact fenced_incrementAndCreateAttempt clock db jobId token kind
  | acquireAssessmentBarrier clock jobId token preserveStatus =>
    exact fenced_acquireAssessmentBarrier clock db jobId token preserveStatus
  | requeueExpiredLeases clock completedPlan =>
    exact fenced_requeueExpiredLeases clock completedPlan db
  | clearParkedLeases stale => exact fenced_clearParkedLeases stale db
  | requeueAll clock completedPlan expired =>
    exact fenced_requeueAll clock completedPlan expired db
  | requeueOrphanedJobs clock force ownerId lockName =>
    exact fenced_requeueOrphanedJobs clock db force ownerId lockName
  | requeueOrphanedRows clock force ownerId lockName =>
    exact fenced_requeueOrphanedRows clock db force ownerId lockName
  | requeueForShutdown clock jobId => exact fenced_requeueForShutdown clock db jobId
  | requeueShutdownRow clock jobId => exact fenced_requeueShutdownRow clock db jobId
  | settleRequeuedJob jobId status => exact fenced_settleRequeuedJob db jobId status
  | updateJobStatus clock jobId status options =>
    exact fenced_updateJobStatus clock db jobId status options

/-- The lease columns of every job are consistent: a token only in a status that holds a lease,
and only one that was drawn. -/
structure LeasesWellFormed (db : Db) : Prop where
  ids : (db.jobs.map Job.id).Nodup
  holding : ∀ job ∈ db.jobs, job.leaseToken.isSome = true → job.status ∈ leaseHoldingStatuses
  drawn : ∀ job ∈ db.jobs, ∀ token, job.leaseToken = some token → token < db.nextToken

/-- A token that was drawn and is not in the row of the job. -/
def Cleared (jobId token : ℕ) (db : Db) : Prop :=
  token < db.nextToken ∧ ∀ job ∈ db.jobs, job.id = jobId → job.leaseToken ≠ some token

theorem LeasesWellFormed.of_fenced {db db' : Db} (h : LeasesWellFormed db)
    (hf : Fenced db db') : LeasesWellFormed db' := by
  refine ⟨hf.ids ▸ h.ids, fun job hjob hsome => ?_, fun job hjob token htoken => ?_⟩
  · rcases hf.rows job hjob with hnone | ⟨token, -, -, -, hstatus⟩ |
      ⟨before, hbefore, -, hkept, hstatus⟩
    · rw [hnone] at hsome
      simp at hsome
    · exact hstatus
    · rcases hstatus with hholding | hsame
      · exact hholding
      · rw [hsame]
        exact h.holding before hbefore (hkept ▸ hsome)
  · rcases hf.rows job hjob with hnone | ⟨fresh, hfresh, -, hhigh, -⟩ |
      ⟨before, hbefore, -, hkept, -⟩
    · rw [hnone] at htoken
      exact absurd htoken (by simp)
    · rw [htoken] at hfresh
      obtain rfl := Option.some.inj hfresh
      exact hhigh
    · exact (h.drawn before hbefore token (hkept.trans htoken)).trans_le hf.tokens

/-- **A cleared token stays cleared.** -/
theorem Cleared.of_fenced {db db' : Db} {jobId token : ℕ} (h : Cleared jobId token db)
    (hf : Fenced db db') : Cleared jobId token db' := by
  refine ⟨h.1.trans_le hf.tokens, fun job hjob hid htoken => ?_⟩
  rcases hf.rows job hjob with hnone | ⟨fresh, hfresh, hlow, -, -⟩ |
    ⟨before, hbefore, hbid, hkept, -⟩
  · rw [hnone] at htoken
    exact absurd htoken (by simp)
  · -- a token drawn now is not one drawn before
    rw [htoken] at hfresh
    obtain rfl := Option.some.inj hfresh
    exact absurd h.1 (Nat.not_lt.mpr hlow)
  · exact h.2 before hbefore (hbid.trans hid) (hkept.trans htoken)

theorem fenced_run (db : Db) (ops : List LeaseOp) : Fenced db (Runs.run leaseStep db ops) :=
  Runs.run_rel_of_forall Fenced.refl (fun _ _ _ => Fenced.trans) fenced_leaseStep db ops

/-! ## 5. A cleared token is refused -/

/-- Every call that presents the token fails and changes nothing. -/
structure TokenRefused (jobId token : ℕ) (db : Db) : Prop where
  validation : ∀ clock, isLeaseValid clock db jobId token = false
  renew : ∀ clock durationMs, renewLease clock db jobId token durationMs = (db, false)
  release : ∀ clock finalStatus readyAt,
    releaseLease clock db jobId token finalStatus readyAt = (db, false)
  releaseWithoutPenalty : ∀ clock finalStatus readyAt attemptId,
    releaseLeaseWithoutAttemptPenalty clock db jobId token finalStatus readyAt attemptId =
      (db, false)
  attempt : ∀ clock kind, incrementAndCreateAttempt clock db jobId token kind = (db, none)
  barrier : ∀ clock preserveStatus,
    acquireAssessmentBarrier clock db jobId token preserveStatus = (db, false)
  status : ∀ clock status options, options.leaseToken = some token → options.force = false →
    updateJobStatus clock db jobId status options = (db, false)

theorem Cleared.not_valid {db : Db} {jobId token : ℕ} (h : Cleared jobId token db)
    {job : Job} (hjob : db.getJob jobId = some job) (clock : Clock) :
    leaseIsValid clock token job = false := by
  have htoken := h.2 job (Table.lookup_mem hjob) (Table.lookup_key hjob)
  rw [← Bool.not_eq_true, leaseIsValid_iff]
  exact fun hvalid => htoken hvalid.1

theorem Cleared.isLeaseValid_eq {db : Db} {jobId token : ℕ} (h : Cleared jobId token db)
    (clock : Clock) : isLeaseValid clock db jobId token = false := by
  unfold isLeaseValid
  cases hjob : db.getJob jobId with
  | none => rfl
  | some job => simpa using h.not_valid hjob clock

/-- No row of the job matches a `WHERE` clause that compares the token. -/
theorem Cleared.changes_eq_zero {db : Db} {jobId token : ℕ} (h : Cleared jobId token db)
    {p : Job → Bool} (hp : ∀ job, p job = true → job.id = jobId ∧ job.leaseToken = some token) :
    Table.changes p db.jobs = 0 := by
  rw [Table.changes_eq_zero_iff]
  intro job hjob
  rw [← Bool.not_eq_true]
  intro hpj
  exact h.2 job hjob (hp job hpj).1 (hp job hpj).2

theorem isLeasedBy_iff {jobId token : ℕ} {job : Job} :
    job.isLeasedBy jobId token = true ↔
      job.id = jobId ∧ job.leaseToken = some token ∧ job.status ∈ leaseHoldingStatuses := by
  simp [Job.isLeasedBy, and_assoc]

theorem Cleared.releaseLease_eq {db : Db} {jobId token : ℕ} (h : Cleared jobId token db)
    (clock : Clock) (finalStatus : JobStatus) (readyAt : Option ℤ) :
    releaseLease clock db jobId token finalStatus readyAt = (db, false) := by
  have hzero := h.changes_eq_zero (fun job hp =>
    ⟨(isLeasedBy_iff.mp hp).1, (isLeasedBy_iff.mp hp).2.1⟩)
  unfold releaseLease
  dsimp only
  rw [if_pos hzero]

theorem Cleared.renewLease_eq {db : Db} {jobId token : ℕ} (h : Cleared jobId token db)
    (clock : Clock) (durationMs : ℤ) :
    renewLease clock db jobId token durationMs = (db, false) := by
  have hzero : Table.changes
      (fun job : Job => job.id == jobId && leaseIsValid clock token job) db.jobs = 0 := by
    refine h.changes_eq_zero (fun job hp => ?_)
    rw [Bool.and_eq_true, beq_iff_eq, leaseIsValid_iff] at hp
    exact ⟨hp.1, hp.2.1⟩
  unfold renewLease Db.updateJobs
  dsimp only
  rw [Table.updateWhere_of_changes_eq_zero hzero, hzero]
  rfl

theorem Cleared.updateJobStatus_eq {db : Db} {jobId token : ℕ} (h : Cleared jobId token db)
    (clock : Clock) (status : JobStatus) {options : StatusOptions}
    (htoken : options.leaseToken = some token) (hforce : options.force = false) :
    updateJobStatus clock db jobId status options = (db, false) := by
  have hzero : Table.changes (statusUpdateApplies jobId options) db.jobs = 0 := by
    refine h.changes_eq_zero (fun job hp => ?_)
    simp only [statusUpdateApplies, hforce, htoken, Bool.false_or, Bool.and_eq_true,
      beq_iff_eq] at hp
    exact ⟨hp.1.1, hp.1.2⟩
  unfold updateJobStatus
  dsimp only
  rw [if_pos hzero]

theorem Cleared.refused {db : Db} {jobId token : ℕ} (h : Cleared jobId token db) :
    TokenRefused jobId token db where
  validation := h.isLeaseValid_eq
  renew := h.renewLease_eq
  release := h.releaseLease_eq
  releaseWithoutPenalty := by
    intro clock finalStatus readyAt attemptId
    unfold releaseLeaseWithoutAttemptPenalty
    rw [h.releaseLease_eq]
    rfl
  attempt := by
    intro clock kind
    unfold incrementAndCreateAttempt
    rw [if_pos (h.isLeaseValid_eq clock)]
  barrier := by
    intro clock preserveStatus
    unfold acquireAssessmentBarrier
    cases hjob : db.getJob jobId with
    | none => rfl
    | some job =>
      dsimp only
      rw [if_pos (h.not_valid hjob clock)]
  status := fun clock status _ => h.updateJobStatus_eq clock status

/-! ## 6. A valid lease is not reclaimed -/

section Reclaim

variable {id : ℕ}

theorem getJob_foldl {α : Type} {step : Db → α → Db} {as : List α}
    (hstep : ∀ d, ∀ a ∈ as, (step d a).getJob id = d.getJob id) (db : Db) :
    (as.foldl step db).getJob id = db.getJob id := by
  induction as generalizing db with
  | nil => rfl
  | cons a as ih =>
    rw [List.foldl_cons, ih (fun d b hb => hstep d b (List.mem_cons_of_mem a hb)),
      hstep db a List.mem_cons_self]

theorem getJob_consume_of_ne {db : Db} {jobId : ℕ} (hne : jobId ≠ id) :
    (consumePendingHumanGateResume db jobId).1.getJob id = db.getJob id := by
  unfold consumePendingHumanGateResume
  split
  · rfl
  · split
    · rfl
    · split_ifs
      · rfl
      · rfl
      · refine Db.getJob_updateJobs_of_ne (fun _ _ => rfl) (fun job hp => ?_)
        simp only [Bool.and_eq_true, beq_iff_eq] at hp
        exact hp.1.1 ▸ hne
      · rfl

theorem getJob_markAssessOnly_of_ne {db : Db} {jobId : ℕ} {wasAssessing : Bool}
    (hne : jobId ≠ id) : (markAssessOnly db jobId wasAssessing).getJob id = db.getJob id := by
  unfold markAssessOnly
  split
  · refine Db.getJob_updateJobs_of_ne (fun _ _ => rfl) (fun job hp => ?_)
    rw [beq_iff_eq] at hp
    exact hp ▸ hne
  · rfl

theorem isParkedRow_id {row job : Job} (h : isParkedRow row job = true) : job.id = row.id := by
  simp only [isParkedRow, Bool.and_eq_true, beq_iff_eq] at h
  exact h.1.1.1

theorem isExpiredRow_id {clock : Clock} {row job : Job} (h : isExpiredRow clock row job = true) :
    job.id = row.id := by
  simp only [isExpiredRow, Bool.and_eq_true, beq_iff_eq] at h
  exact h.1.1.1

theorem getJob_clearParkedLease_of_ne {db : Db} {row : Job} (hne : row.id ≠ id) :
    (clearParkedLease db row).getJob id = db.getJob id := by
  unfold clearParkedLease
  split
  · rfl
  · have hcleared : (consumePendingHumanGateResume
        (db.updateJobs (isParkedRow row) Job.unlease) row.id).1.getJob id = db.getJob id := by
      rw [getJob_consume_of_ne hne]
      exact Db.getJob_updateJobs_of_ne (fun _ _ => rfl) (fun job hp => isParkedRow_id hp ▸ hne)
    dsimp only
    split
    · exact ((locksOnly_releaseJobLocksForStatus _ row.id .queued).getJob id).trans hcleared
    · exact hcleared

theorem getJob_requeueExpiredLease_of_ne (clock : Clock) (completedPlan : ℕ → Bool) (db : Db)
    {row : Job} (hne : row.id ≠ id) :
    (requeueExpiredLease clock completedPlan db row).getJob id = db.getJob id := by
  have hrow : ∀ job, isExpiredRow clock row job = true → job.id ≠ id :=
    fun job hp => isExpiredRow_id hp ▸ hne
  unfold requeueExpiredLease
  dsimp only
  split_ifs
  · rfl
  · rw [(locksOnly_releaseJobLocksForStatus _ row.id .succeeded).getJob id]
    exact Db.getJob_updateJobs_of_ne (fun _ _ => rfl) hrow
  · rw [(locksOnly_releaseJobLocksForStatus _ row.id .failed).getJob id]
    exact Db.getJob_updateJobs_of_ne (fun _ _ => rfl) hrow
  · rw [getJob_markAssessOnly_of_ne hne,
      (locksOnly_releaseJobLocksForStatus _ row.id .queued).getJob id, getJob_consume_of_ne hne]
    exact Db.getJob_updateJobs_of_ne (fun job _ => requeue_id clock _ job) hrow

/-- A job in grace is in neither selection of the sweep. -/
theorem not_selected_of_valid {clock : Clock} {token : ℕ} {job : Job}
    (h : leaseIsValid clock token job = true) :
    isParkedStale clock job = false ∧ isExpired clock job = false := by
  obtain ⟨-, -, expiresAt, hexpires, hcutoff⟩ := leaseIsValid_iff.mp h
  constructor
  · simp [isParkedStale, hexpires, hcutoff]
  · simp [isExpired, hexpires, hcutoff]

/-- No row of a selection is the valid job's. -/
theorem selected_ne {db : Db} {select : Job → Bool} {job : Job} (hids : (db.jobs.map Job.id).Nodup)
    (hjob : db.getJob id = some job) (hselect : select job = false) :
    ∀ row ∈ db.jobs.filter select, row.id ≠ id := by
  intro row hrow hid
  obtain ⟨hmem, hselected⟩ := List.mem_filter.mp hrow
  have hsame : row = job := Table.eq_of_key_eq hids hmem (Table.lookup_mem hjob)
    (hid.trans (Table.lookup_key hjob).symm)
  rw [hsame, hselect] at hselected
  exact absurd hselected (by simp)

/-- **At one clock value, the sweep does not touch a lease that `isLeaseValid` accepts.** -/
theorem getJob_requeueExpiredLeases_of_valid {clock : Clock} {db : Db} {token : ℕ}
    (hids : (db.jobs.map Job.id).Nodup) (h : isLeaseValid clock db id token = true)
    (completedPlan : ℕ → Bool) :
    (requeueExpiredLeases clock completedPlan db).getJob id = db.getJob id := by
  obtain ⟨job, hjob, hvalid⟩ : ∃ job, db.getJob id = some job ∧
      leaseIsValid clock token job = true := by
    simpa [isLeaseValid, Option.any_eq_true] using h
  obtain ⟨hparked, hexpired⟩ := not_selected_of_valid hvalid
  -- the sweep of parked leases leaves the row, so the second selection reads it unchanged
  have hcleared : (clearExpiredParkedLeaseTokens clock db).getJob id = db.getJob id :=
    getJob_foldl (fun d row hrow => getJob_clearParkedLease_of_ne
      (selected_ne hids hjob hparked row hrow)) db
  have hids' : ((clearExpiredParkedLeaseTokens clock db).jobs.map Job.id).Nodup :=
    (fenced_clearParkedLeases _ db).ids ▸ hids
  have hjob' := hcleared.trans hjob
  have hrequeued := getJob_foldl (fun d row hrow => getJob_requeueExpiredLease_of_ne clock
    completedPlan d (selected_ne hids' hjob' hexpired row hrow))
    (clearExpiredParkedLeaseTokens clock db)
  unfold requeueExpiredLeases requeueAll
  dsimp only
  split
  · exact hrequeued.trans hcleared
  · exact hrequeued.trans hcleared

end Reclaim

/-! ## 7. The fence -/

/-- **Lease fencing.**  In every state any interleaving of lease transactions reaches: (a) a job
has a token only in a status that holds a lease, and none when it is queued or terminal; (b) a
token that a job held at some time and did not hold at a later one is refused by every call,
which changes nothing; (c) the sweep, at the clock at which a token is valid, leaves its job as
it is. -/
theorem lease_fencing {db : Db} (h : LeasesWellFormed db) (earlier between later : List LeaseOp) :
    let held := Runs.run leaseStep db earlier
    let cleared := Runs.run leaseStep held between
    let reached := Runs.run leaseStep cleared later
    (∀ job ∈ reached.jobs,
      (job.leaseToken.isSome = true → job.status ∈ leaseHoldingStatuses) ∧
      (job.status = .queued ∨ job.status ∈ terminalJobStatuses → job.leaseToken = none)) ∧
    (∀ jobId token, (∃ job ∈ held.jobs, job.id = jobId ∧ job.leaseToken = some token) →
      (∀ job ∈ cleared.jobs, job.id = jobId → job.leaseToken ≠ some token) →
      TokenRefused jobId token reached) ∧
    (∀ clock completedPlan jobId token, isLeaseValid clock reached jobId token = true →
      (requeueExpiredLeases clock completedPlan reached).getJob jobId =
        reached.getJob jobId) := by
  intro held cleared reached
  have hheld : LeasesWellFormed held := h.of_fenced (fenced_run db earlier)
  have hbetween : Fenced held cleared := fenced_run held between
  have hlater : Fenced cleared reached := fenced_run cleared later
  have hreached : LeasesWellFormed reached := hheld.of_fenced (hbetween.trans hlater)
  refine ⟨fun job hjob => ⟨hreached.holding job hjob, fun hstatus => ?_⟩, ?_, ?_⟩
  · -- a queued or terminal status holds no lease
    by_contra hsome
    have hholding := hreached.holding job hjob (Option.isSome_iff_ne_none.mpr hsome)
    rcases hstatus with hqueued | hterminal
    · exact not_leaseHolding_iff.mpr (Or.inl hqueued) hholding
    · exact not_leaseHolding_iff.mpr (Or.inr (Or.inr hterminal)) hholding
  · rintro jobId token ⟨job, hjob, hid, htoken⟩ hnow
    have hdrawn : token < cleared.nextToken :=
      (hheld.drawn job hjob token htoken).trans_le hbetween.tokens
    have hcleared : Cleared jobId token cleared := ⟨hdrawn, hnow⟩
    exact (hcleared.of_fenced hlater).refused
  · intro clock completedPlan jobId token hvalid
    exact getJob_requeueExpiredLeases_of_valid hreached.ids hvalid completedPlan

/-- The fence at work: a job is leased (token 0), requeued for shutdown and leased again
(token 1); the first worker's token is refused. -/
theorem lease_fencing_zombie :
    let clock : Clock := { now := 0, leaseNow := 0, grace := 60 }
    let job : Job := { id := 1, workItemId := none, jobType := .research, status := .queued }
    let db : Db := { jobs := [job] }
    let acquire := LeaseOp.acquireLease clock 1 "scheduler" 900
    TokenRefused 1 0
        (Runs.run leaseStep db [acquire, .requeueForShutdown clock 1, acquire]) ∧
      isLeaseValid clock
        (Runs.run leaseStep db [acquire, .requeueForShutdown clock 1, acquire]) 1 1 = true := by
  intro clock job db acquire
  have hdb : LeasesWellFormed db := ⟨by decide, by decide, by simp [db, job]⟩
  have hfence := (lease_fencing hdb [acquire] [.requeueForShutdown clock 1] [acquire]).2.1 1 0
    (by decide) (by decide)
  exact ⟨hfence, by decide⟩

end PosseClient
