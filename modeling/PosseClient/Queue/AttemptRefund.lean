/-
# Attempts charged and refunded

Creating an attempt charges it to its job; a requeue of a running job, and a release without
penalty, refund one.  No requeue closes the attempt's row, so nothing in the database says that
an attempt was refunded; the runs here carry the list of the refunded ones beside it.

* `refundTarget` reads off the state which attempt a step refunds, if any, and
  `chargeStep_spec` says that this is all a step does to the count.
* `attempt_refunded_at_most_once` is about every run in which each refunded attempt is newer
  than those refunded before.
* `attempt_refunded_twice` is a run of one job in which it is not: the second lease is requeued
  before it has created an attempt of its own.
-/
import PosseClient.Queue.LeaseColumns

namespace PosseClient

/-! ## 1. Charges and refunds -/

/-- `jobs.attempt_count`. -/
def attemptCountOf (db : Db) (jobId : ℕ) : ℕ := ((db.getJob jobId).map Job.attemptCount).getD 0

/-- The kinds of attempt that are charged. -/
def isCharged (jobId : ℕ) (attempt : Attempt) : Bool :=
  attempt.jobId == jobId && attempt.kind ∈ [AttemptKind.implementation, AttemptKind.human]

/-- The attempts charged to a job. -/
def chargedAttempts (db : Db) (jobId : ℕ) : List ℕ :=
  (db.attempts.filter (isCharged jobId)).map Attempt.id

/-- The attempt a requeue of this row refunds. -/
def refundedByRequeue (db : Db) (job : Job) : Option ℕ :=
  if refundsAttempt db job then (latestAttempt db job.id).map Attempt.id else none

/-- The attempt of one job that a sweep over `rows` refunds: a row selects a job, and requeues
it unless it settles it. -/
def refundedBySweep (selects : Job → Job → Bool) (requeues : Job → Bool) (rows : List Job)
    (db : Db) (jobId : ℕ) : Option ℕ :=
  (db.getJob jobId).bind (fun job =>
    (rows.find? (fun row => selects row job)).bind (fun row =>
      if requeues row then refundedByRequeue db job else none))

/-- The attempt a requeue for shutdown refunds. -/
def refundedByShutdown (db : Db) (id jobId : ℕ) : Option ℕ :=
  if id = jobId then (db.getJob jobId).bind (refundedByRequeue db) else none

/-- The attempt a release without penalty refunds. -/
def refundedByRelease (db : Db) (id token : ℕ) (attemptId : Option ℕ) (jobId : ℕ) : Option ℕ :=
  if id = jobId ∧ 0 < Table.changes (Job.isLeasedBy jobId token) db.jobs then
    attemptId.filter (fun a => a ∈ chargedAttempts db jobId)
  else none

/-- An expired row is requeued unless its plan is complete or it warms the atlas. -/
def requeuesExpired (completedPlan : ℕ → Bool) (row : Job) : Bool :=
  !completedPlan row.id && row.jobType != .atlasWarm

/-- An orphaned row is requeued unless it warms the atlas. -/
def requeuesOrphan (row : Job) : Bool := row.jobType != .atlasWarm

/-- A lease transaction of any process, or the end of an attempt. -/
inductive ChargeOp
  | lease (op : LeaseOp)
  | completeAttempt (attemptId : ℕ) (status : AttemptStatus)

/-- One transaction. -/
def chargeStep (db : Db) : ChargeOp → Db
  | .lease op => leaseStep db op
  | .completeAttempt attemptId status => completeAttempt db attemptId status

/-- The attempt of the job that a step refunds. -/
def refundTarget (jobId : ℕ) (db : Db) : ChargeOp → Option ℕ
  | .lease (.releaseLeaseWithoutAttemptPenalty _ id token _ _ attemptId) =>
    refundedByRelease db id token attemptId jobId
  | .lease (.requeueExpiredLeases clock completedPlan) =>
    let cleared := clearExpiredParkedLeaseTokens clock db
    refundedBySweep (isExpiredRow clock) (requeuesExpired completedPlan)
      (cleared.jobs.filter (isExpired clock)) cleared jobId
  | .lease (.requeueAll clock completedPlan expired) =>
    refundedBySweep (isExpiredRow clock) (requeuesExpired completedPlan) expired db jobId
  | .lease (.requeueOrphanedJobs clock force ownerId lockName)
  | .lease (.requeueOrphanedRows clock force ownerId lockName) =>
    refundedBySweep isOrphanRow requeuesOrphan
      (orphanedJobs clock db (mayForceRequeue clock db force ownerId lockName)) db jobId
  | .lease (.requeueForShutdown _ id) | .lease (.requeueShutdownRow _ id) =>
    if id = jobId then (db.getJob jobId).bind (refundedByRequeue db) else none
  | _ => none

/-! ## 2. Counts that a step keeps -/

theorem ignoresLease_attemptCount : IgnoresLease Job.attemptCount :=
  ⟨fun _ _ _ _ _ _ _ _ => rfl, fun _ _ _ => rfl⟩

theorem Kept.attemptCountOf {db db' : Db} (h : Kept Job.attemptCount db db') (jobId : ℕ) :
    attemptCountOf db' jobId = attemptCountOf db jobId := by
  unfold PosseClient.attemptCountOf
  rw [h.getJob]

theorem attemptCountOf_of_getJob {db db' : Db} {jobId : ℕ}
    (h : db'.getJob jobId = db.getJob jobId) :
    attemptCountOf db' jobId = attemptCountOf db jobId := by
  unfold attemptCountOf
  rw [h]

theorem attemptCountOf_some {db : Db} {jobId : ℕ} {job : Job} (h : db.getJob jobId = some job) :
    attemptCountOf db jobId = job.attemptCount := by
  rw [attemptCountOf, h]
  rfl

theorem chargedAttempts_of_attempts {db db' : Db} (h : db'.attempts = db.attempts) (jobId : ℕ) :
    chargedAttempts db' jobId = chargedAttempts db jobId := by
  rw [chargedAttempts, h]
  rfl

theorem latestAttempt_mem {db : Db} {jobId : ℕ} {attempt : Attempt}
    (h : latestAttempt db jobId = some attempt) :
    attempt ∈ db.attempts ∧ attempt.jobId = jobId := by
  have hfold : ∀ (as : List Attempt) (best : Option Attempt),
      as.foldl (fun best a => if best.any (fun b => a.id < b.id) then best else some a) best =
        some attempt → attempt ∈ as ∨ best = some attempt := by
    intro as
    induction as with
    | nil => exact fun best hbest => Or.inr hbest
    | cons a as ih =>
      intro best hbest
      rw [List.foldl_cons] at hbest
      rcases ih _ hbest with hmem | hlast
      · exact Or.inl (List.mem_cons_of_mem a hmem)
      · split at hlast
        · exact Or.inr hlast
        · exact Or.inl (Option.some.inj hlast ▸ List.mem_cons_self)
  rcases hfold _ none h with hmem | hnone
  · obtain ⟨hmem, hjob⟩ := List.mem_filter.mp hmem
    exact ⟨hmem, beq_iff_eq.mp hjob⟩
  · exact absurd hnone (by simp)

/-- A requeue refunds exactly when it names an attempt. -/
theorem refundedByRequeue_isSome (db : Db) (job : Job) :
    (refundedByRequeue db job).isSome = refundsAttempt db job := by
  unfold refundedByRequeue
  split
  · rename_i hrefunds
    rw [hrefunds]
    simp only [refundsAttempt, Bool.and_eq_true, Option.any_eq_true] at hrefunds
    obtain ⟨-, attempt, hlatest, -⟩ := hrefunds
    rw [hlatest]
    rfl
  · rename_i hrefunds
    rw [Bool.not_eq_true] at hrefunds
    rw [hrefunds]
    rfl

theorem refundedByRequeue_charged {db : Db} {job : Job} {a : ℕ}
    (h : refundedByRequeue db job = some a) : a ∈ chargedAttempts db job.id := by
  unfold refundedByRequeue at h
  split at h
  · rename_i hrefunds
    simp only [refundsAttempt, Bool.and_eq_true, Option.any_eq_true] at hrefunds
    obtain ⟨-, attempt, hlatest, -, hkind⟩ := hrefunds
    rw [hlatest, Option.map_some, Option.some.injEq] at h
    obtain ⟨hmem, hjob⟩ := latestAttempt_mem hlatest
    refine List.mem_map.mpr ⟨attempt, List.mem_filter.mpr ⟨hmem, ?_⟩, h⟩
    rw [isCharged, hjob, hkind]
    simp
  · exact absurd h (by simp)

theorem refundedByRequeue_of_attempts {db db' : Db} (h : db'.attempts = db.attempts)
    (job : Job) : refundedByRequeue db' job = refundedByRequeue db job := by
  unfold refundedByRequeue refundsAttempt latestAttempt
  rw [h]

/-! ## 3. Sweeps -/

/-- What one row of a sweep does to the job it selects and to the others. -/
structure RefundingSweep (step : Db → Job → Db) (selects : Job → Job → Bool)
    (requeues : Job → Bool) : Prop where
  ids : ∀ db row, (step db row).jobs.map Job.id = db.jobs.map Job.id
  attempts : ∀ db row, (step db row).attempts = db.attempts
  skipped : ∀ db row id, (db.jobs.map Job.id).Nodup →
    (∀ job, db.getJob id = some job → selects row job = false) →
    (step db row).getJob id = db.getJob id
  taken : ∀ db row id job, (db.jobs.map Job.id).Nodup → db.getJob id = some job →
    selects row job = true → ∃ job', (step db row).getJob id = some job' ∧
      job'.status ∉ activeLeaseStatuses ∧
      job'.attemptCount = job.attemptCount - (if requeues row && refundsAttempt db job then 1 else 0)

section Sweep

variable {step : Db → Job → Db} {selects : Job → Job → Bool} {requeues : Job → Bool}

theorem RefundingSweep.foldl_attempts (h : RefundingSweep step selects requeues)
    (rows : List Job) (db : Db) : (rows.foldl step db).attempts = db.attempts := by
  induction rows generalizing db with
  | nil => rfl
  | cons row rows ih => rw [List.foldl_cons, ih, h.attempts]

/-- A job no row selects keeps its row. -/
theorem RefundingSweep.foldl_skipped (h : RefundingSweep step selects requeues) {id : ℕ}
    {rows : List Job} {db : Db} (hids : (db.jobs.map Job.id).Nodup)
    (hnone : ∀ row ∈ rows, ∀ job, db.getJob id = some job → selects row job = false) :
    (rows.foldl step db).getJob id = db.getJob id := by
  induction rows generalizing db with
  | nil => rfl
  | cons row rows ih =>
    have hhead := h.skipped db row id hids (hnone row List.mem_cons_self)
    rw [List.foldl_cons, ih (h.ids db row ▸ hids), hhead]
    intro row' hrow' job hjob
    exact hnone row' (List.mem_cons_of_mem row hrow') job (hhead ▸ hjob)

/-- **A sweep refunds one attempt of a job at most**: the first row that selects the job takes it
out of the statuses the later ones select. -/
theorem RefundingSweep.attemptCountOf_foldl (h : RefundingSweep step selects requeues) {id : ℕ}
    {rows : List Job} (hactive : ∀ row ∈ rows, ∀ job, selects row job = true →
      job.status ∈ activeLeaseStatuses) {db : Db} (hids : (db.jobs.map Job.id).Nodup) :
    attemptCountOf (rows.foldl step db) id = attemptCountOf db id -
      (refundedBySweep selects requeues rows db id).toList.length := by
  cases hjob : db.getJob id with
  | none =>
    have hkept : (rows.foldl step db).getJob id = db.getJob id :=
      h.foldl_skipped hids (fun row _ job hsome => absurd (hjob ▸ hsome) (by simp))
    rw [attemptCountOf_of_getJob hkept, refundedBySweep, hjob]
    rfl
  | some job =>
    induction rows generalizing db with
    | nil =>
      rw [refundedBySweep, hjob]
      rfl
    | cons row rows ih =>
      have hrest := fun row' hrow' => hactive row' (List.mem_cons_of_mem row hrow')
      rw [List.foldl_cons]
      cases hselects : selects row job with
      | false =>
        have hkept := h.skipped db row id hids
          (fun j hj => Option.some.inj (hjob.symm.trans hj) ▸ hselects)
        have hsweep : refundedBySweep selects requeues rows (step db row) id =
            refundedBySweep selects requeues (row :: rows) db id := by
          unfold refundedBySweep
          rw [hkept, hjob, Option.bind_some, Option.bind_some, List.find?_cons, hselects,
            refundedByRequeue_of_attempts (h.attempts db row)]
        rw [ih hrest (h.ids db row ▸ hids) (hkept.trans hjob), attemptCountOf_of_getJob hkept,
          hsweep]
      | true =>
        obtain ⟨job', hjob', hdone, hcount⟩ := h.taken db row id job hids hjob hselects
        have hkept : (rows.foldl step (step db row)).getJob id = (step db row).getJob id := by
          refine h.foldl_skipped (h.ids db row ▸ hids) (fun row' hrow' j hj => ?_)
          rw [← Bool.not_eq_true]
          intro hagain
          rw [hjob', Option.some.injEq] at hj
          exact hdone (hj ▸ hrest row' hrow' j hagain)
        rw [attemptCountOf_of_getJob hkept, attemptCountOf_some hjob', attemptCountOf_some hjob,
          hcount, refundedBySweep, hjob, Option.bind_some, List.find?_cons, hselects,
          Option.bind_some, ← refundedByRequeue_isSome]
        cases requeues row with
        | false => rfl
        | true => cases refundedByRequeue db job <;> rfl

theorem refundedBySweep_charged {rows : List Job} {db : Db} {id a : ℕ}
    (h : refundedBySweep selects requeues rows db id = some a) : a ∈ chargedAttempts db id := by
  obtain ⟨job, hjob, h⟩ := Option.bind_eq_some_iff.mp h
  obtain ⟨row, -, h⟩ := Option.bind_eq_some_iff.mp h
  have hid : job.id = id := Table.lookup_key hjob
  split at h
  · exact hid ▸ refundedByRequeue_charged h
  · exact absurd h (by simp)

end Sweep

/-! ## 4. The steps that refund -/

theorem requeue_status (clock : Clock) (refunds : Bool) (job : Job) :
    (job.requeue clock refunds).status = .queued := by
  unfold Job.requeue
  dsimp only
  split
  · rfl
  · rfl

theorem requeue_attemptCount (clock : Clock) (refunds : Bool) (job : Job) :
    (job.requeue clock refunds).attemptCount = job.attemptCount - (if refunds then 1 else 0) := by
  unfold Job.requeue
  dsimp only
  split
  · rfl
  · rfl

/-- The writes of a requeue: the row is queued, and the count drops by what it refunds. -/
structure Requeues (db : Db) (f : Job → Job) : Prop where
  id : ∀ job, (f job).id = job.id
  status : ∀ job, (f job).status = .queued
  attemptCount : ∀ job,
    (f job).attemptCount = job.attemptCount - (if refundsAttempt db job then 1 else 0)

theorem requeues_requeue (clock : Clock) (db : Db) :
    Requeues db (fun job => job.requeue clock (refundsAttempt db job)) :=
  ⟨fun job => requeue_id clock _ job, fun job => requeue_status clock _ job,
    fun job => requeue_attemptCount clock _ job⟩

theorem requeues_requeueUnfinished (clock : Clock) (db : Db) :
    Requeues db (fun job =>
      { job.requeue clock (refundsAttempt db job) with finishedAt := none }) :=
  ⟨fun job => requeue_id clock _ job, fun job => requeue_status clock _ job,
    fun job => requeue_attemptCount clock _ job⟩

/-- A pending resume finds nothing to do for a queued job. -/
theorem getJob_consume_of_queued {db : Db} {id : ℕ} {job : Job} (hjob : db.getJob id = some job)
    (hqueued : job.status = .queued) :
    (consumePendingHumanGateResume db id).1.getJob id = some job := by
  unfold consumePendingHumanGateResume
  rw [hjob]
  dsimp only
  rw [if_pos hqueued]
  split
  · exact hjob
  · exact hjob

theorem getJob_updateJobs_of_pos {db : Db} {p : Job → Bool} {f : Job → Job} {id : ℕ} {job : Job}
    (hid : ∀ j, p j = true → (f j).id = j.id) (hjob : db.getJob id = some job)
    (hp : p job = true) : (db.updateJobs p f).getJob id = some (f job) := by
  rw [Db.getJob_updateJobs hid, hjob, Option.map_some, if_pos hp]

theorem getJob_markAssessOnly {db : Db} {id : ℕ} {job : Job} (hjob : db.getJob id = some job)
    (wasAssessing : Bool) : ∃ job', (markAssessOnly db id wasAssessing).getJob id = some job' ∧
      job'.status = job.status ∧ job'.attemptCount = job.attemptCount := by
  unfold markAssessOnly
  split
  · exact ⟨job.markAssessOnly, getJob_updateJobs_of_pos (fun _ _ => rfl) hjob
      (beq_iff_eq.mpr (Table.lookup_key hjob)), rfl, rfl⟩
  · exact ⟨job, hjob, rfl, rfl⟩

/-- An update whose `WHERE` clause matches the job touches a row. -/
theorem changes_ne_zero {db : Db} {p : Job → Bool} {id : ℕ} {job : Job}
    (hjob : db.getJob id = some job) (hp : p job = true) : Table.changes p db.jobs ≠ 0 :=
  (Table.changes_pos_iff.mpr ⟨job, Table.lookup_mem hjob, hp⟩).ne'

/-- A statement that touches a row touches another job's, if it does not match this one. -/
theorem ne_of_changes {db : Db} {p : Job → Bool} {row : Job} {id : ℕ}
    (hids : (db.jobs.map Job.id).Nodup) (hp : ∀ job, p job = true → job.id = row.id)
    (hskip : ∀ job, db.getJob id = some job → p job = false)
    (hchanges : Table.changes p db.jobs ≠ 0) : row.id ≠ id := by
  obtain ⟨job, hjob, hpjob⟩ := Table.changes_pos_iff.mp (Nat.pos_of_ne_zero hchanges)
  rintro rfl
  have hread : db.getJob row.id = some job := hp job hpjob ▸ Table.lookup_of_mem hids hjob
  rw [hskip job hread] at hpjob
  exact absurd hpjob (by simp)

theorem requeueExpiredLease_attempts (clock : Clock) (completedPlan : ℕ → Bool) (db : Db)
    (row : Job) : (requeueExpiredLease clock completedPlan db row).attempts = db.attempts := by
  have hπ : IgnoresLease (fun _ : Job => ()) := ⟨fun _ _ _ _ _ _ _ _ => rfl, fun _ _ _ => rfl⟩
  have hupdate : ∀ (p : Job → Bool) (f : Job → Job), (db.updateJobs p f).attempts = db.attempts :=
    fun _ _ => rfl
  unfold requeueExpiredLease
  dsimp only
  split_ifs
  · rfl
  · exact (locksOnly_releaseJobLocksForStatus _ row.id .succeeded).attempts
  · exact (locksOnly_releaseJobLocksForStatus _ row.id .failed).attempts
  · rw [(kept_markAssessOnly hπ _ row.id _).attempts,
      (locksOnly_releaseJobLocksForStatus _ row.id .queued).attempts,
      (kept_consumePendingHumanGateResume hπ _ row.id).attempts, hupdate]

theorem isExpiredRow_active {clock : Clock} {row job : Job}
    (h : isExpiredRow clock row job = true) : job.status ∈ activeLeaseStatuses := by
  simp only [isExpiredRow, isExpired, Bool.and_eq_true, decide_eq_true_eq] at h
  exact h.2.1.1

theorem refundingSweep_expired (clock : Clock) (completedPlan : ℕ → Bool) :
    RefundingSweep (requeueExpiredLease clock completedPlan) (isExpiredRow clock)
      (requeuesExpired completedPlan) where
  ids := fun db row => (fenced_requeueExpiredLease clock completedPlan db row).ids
  attempts := requeueExpiredLease_attempts clock completedPlan
  skipped := by
    intro db row id hids hskip
    by_cases hchanges : Table.changes (isExpiredRow clock row) db.jobs = 0
    · unfold requeueExpiredLease
      dsimp only
      rw [if_pos hchanges]
    · exact getJob_requeueExpiredLease_of_ne clock completedPlan db
        (ne_of_changes hids (fun _ => isExpiredRow_id) hskip hchanges)
  taken := by
    intro db row id job hids hjob hselects
    have hid : row.id = id := (isExpiredRow_id hselects).symm.trans (Table.lookup_key hjob)
    subst hid
    unfold requeueExpiredLease requeuesExpired
    dsimp only
    rw [if_neg (changes_ne_zero hjob hselects)]
    cases hplan : completedPlan row.id with
    | true =>
      rw [if_pos rfl, (locksOnly_releaseJobLocksForStatus _ row.id .succeeded).getJob row.id]
      exact ⟨_, getJob_updateJobs_of_pos (fun _ _ => rfl) hjob hselects,
        show JobStatus.succeeded ∉ activeLeaseStatuses by decide, rfl⟩
    | false =>
      rw [if_neg (by simp)]
      by_cases hwarm : row.jobType = .atlasWarm
      · rw [if_pos hwarm, (locksOnly_releaseJobLocksForStatus _ row.id .failed).getJob row.id]
        refine ⟨_, getJob_updateJobs_of_pos (fun _ _ => rfl) hjob hselects,
          show JobStatus.failed ∉ activeLeaseStatuses by decide, ?_⟩
        simp [hwarm, Job.unlease]
      · rw [if_neg hwarm]
        -- the job is queued, so neither the resume nor the mark changes its count
        have hrequeues := requeues_requeueUnfinished clock db
        have hrequeued := getJob_updateJobs_of_pos (fun j _ => hrequeues.id j) hjob hselects
        have hconsumed := getJob_consume_of_queued hrequeued (hrequeues.status job)
        rw [← (locksOnly_releaseJobLocksForStatus _ row.id .queued).getJob row.id] at hconsumed
        obtain ⟨job', hjob', hstatus, hcount⟩ :=
          getJob_markAssessOnly hconsumed (row.status == .awaitingAssessment)
        refine ⟨job', hjob', ?_, ?_⟩
        · rw [hstatus, hrequeues.status]
          decide
        · rw [hcount, hrequeues.attemptCount]
          simp [hwarm]

theorem isOrphanRow_id {row job : Job} (h : isOrphanRow row job = true) : job.id = row.id := by
  simp only [isOrphanRow, Bool.and_eq_true, beq_iff_eq] at h
  exact h.1.1.1.1

theorem getJob_requeueOrphanedJob_of_ne (clock : Clock) (db : Db) {row : Job} {id : ℕ}
    (hne : row.id ≠ id) : (requeueOrphanedJob clock db row).getJob id = db.getJob id := by
  have hrow : ∀ job, isOrphanRow row job = true → job.id ≠ id :=
    fun job hp => isOrphanRow_id hp ▸ hne
  unfold requeueOrphanedJob
  dsimp only
  split_ifs
  · exact Db.getJob_updateJobs_of_ne (fun _ _ => rfl) hrow
  · rfl
  · rw [getJob_markAssessOnly_of_ne hne]
    exact Db.getJob_updateJobs_of_ne (fun job _ => requeue_id clock _ job) hrow

theorem requeueOrphanedJob_attempts (clock : Clock) (db : Db) (row : Job) :
    (requeueOrphanedJob clock db row).attempts = db.attempts := by
  have hmark : ∀ d, (markAssessOnly d row.id (row.status == .awaitingAssessment)).attempts =
      d.attempts := by
    intro d
    unfold markAssessOnly
    split
    · rfl
    · rfl
  unfold requeueOrphanedJob
  dsimp only
  split_ifs
  · rfl
  · rfl
  · exact hmark _

theorem refundingSweep_orphaned (clock : Clock) :
    RefundingSweep (requeueOrphanedJob clock) isOrphanRow requeuesOrphan where
  ids := fun db row => (fenced_requeueOrphanedJob clock db row).ids
  attempts := requeueOrphanedJob_attempts clock
  skipped := by
    intro db row id hids hskip
    by_cases hchanges : Table.changes (isOrphanRow row) db.jobs = 0
    · unfold requeueOrphanedJob Db.updateJobs
      dsimp only
      rw [Table.updateWhere_of_changes_eq_zero hchanges, if_pos hchanges]
      split
      · rfl
      · rfl
    · exact getJob_requeueOrphanedJob_of_ne clock db
        (ne_of_changes hids (fun _ => isOrphanRow_id) hskip hchanges)
  taken := by
    intro db row id job hids hjob hselects
    have hid : row.id = id := (isOrphanRow_id hselects).symm.trans (Table.lookup_key hjob)
    subst hid
    unfold requeueOrphanedJob requeuesOrphan
    dsimp only
    by_cases hwarm : row.jobType = .atlasWarm
    · rw [if_pos hwarm]
      refine ⟨_, getJob_updateJobs_of_pos (fun _ _ => rfl) hjob hselects,
        show JobStatus.failed ∉ activeLeaseStatuses by decide, ?_⟩
      simp [hwarm, Job.unlease]
    · rw [if_neg hwarm, if_neg (changes_ne_zero hjob hselects)]
      have hrequeues := requeues_requeueUnfinished clock db
      have hrequeued := getJob_updateJobs_of_pos (fun j _ => hrequeues.id j) hjob hselects
      obtain ⟨job', hjob', hstatus, hcount⟩ :=
        getJob_markAssessOnly hrequeued (row.status == .awaitingAssessment)
      refine ⟨job', hjob', ?_, ?_⟩
      · rw [hstatus, hrequeues.status]
        decide
      · rw [hcount, hrequeues.attemptCount]
        simp [hwarm]

/-- The count after a requeue for shutdown. -/
theorem attemptCountOf_requeueShutdownRow (clock : Clock) {db : Db} (id jobId : ℕ) :
    attemptCountOf (requeueShutdownRow clock db id).1 jobId = attemptCountOf db jobId -
      (refundedByShutdown db id jobId).toList.length := by
  unfold requeueShutdownRow refundedByShutdown
  by_cases hid : id = jobId
  · subst hid
    cases hjob : db.getJob id with
    | none => simp
    | some job =>
      dsimp only
      by_cases hholding : job.status ∈ leaseHoldingStatuses
      · have hrequeues := requeues_requeue clock db
        have hrequeued : (db.updateJobs
            (fun j => j.id == id && decide (j.status ∈ leaseHoldingStatuses))
            (fun j => j.requeue clock (refundsAttempt db j))).getJob id =
              some (job.requeue clock (refundsAttempt db job)) :=
          getJob_updateJobs_of_pos (fun j _ => hrequeues.id j) hjob
            (by simp [Table.lookup_key hjob, hholding])
        obtain ⟨job', hjob', hstatus, hcount⟩ :=
          getJob_markAssessOnly hrequeued (job.status == .awaitingAssessment)
        have hconsumed := getJob_consume_of_queued hjob' (hstatus.trans (hrequeues.status job))
        rw [if_neg (not_not.mpr hholding), attemptCountOf_some hconsumed, hcount,
          hrequeues.attemptCount, attemptCountOf_some hjob, Option.bind_some, if_pos rfl,
          ← refundedByRequeue_isSome]
        cases refundedByRequeue db job <;> rfl
      · -- a running job holds a lease, so nothing is refunded here
        have hnone : refundedByRequeue db job = none := by
          rw [← Option.not_isSome_iff_eq_none, refundedByRequeue_isSome]
          intro hrefunds
          simp only [refundsAttempt, Bool.and_eq_true, beq_iff_eq] at hrefunds
          exact hholding (hrefunds.1 ▸ by decide)
        rw [if_pos hholding, Option.bind_some, hnone]
        simp
  · rw [if_neg hid]
    cases hjob : db.getJob id with
    | none => simp
    | some job =>
      dsimp only
      split
      · simp
      · refine attemptCountOf_of_getJob ?_
        rw [getJob_consume_of_ne hid, getJob_markAssessOnly_of_ne hid]
        refine Db.getJob_updateJobs_of_ne (fun j _ => requeue_id clock _ j) (fun j hp => ?_)
        rw [Bool.and_eq_true, beq_iff_eq] at hp
        exact hp.1 ▸ hid

theorem releaseLease_answer (clock : Clock) (db : Db) (id token : ℕ) (finalStatus : JobStatus)
    (readyAt : Option ℤ) : (releaseLease clock db id token finalStatus readyAt).2 =
      decide (0 < Table.changes (Job.isLeasedBy id token) db.jobs) := by
  unfold releaseLease
  dsimp only
  split
  · rename_i hzero
    simp [hzero]
  · rename_i hzero
    simp [Nat.pos_of_ne_zero hzero]

/-- The test of `releaseLeaseWithoutAttemptPenalty` on the attempt it is given. -/
theorem any_isCharged_iff (db : Db) (jobId a : ℕ) :
    db.attempts.any (fun x => x.id == a && x.jobId == jobId &&
      x.kind ∈ [AttemptKind.implementation, AttemptKind.human]) = true ↔
        a ∈ chargedAttempts db jobId := by
  simp only [List.any_eq_true, chargedAttempts, List.mem_map, List.mem_filter, isCharged,
    Bool.and_eq_true, beq_iff_eq]
  constructor
  · rintro ⟨x, hx, ⟨hid, hjob⟩, hkind⟩
    exact ⟨x, ⟨hx, hjob, hkind⟩, hid⟩
  · rintro ⟨x, ⟨hx, hjob, hkind⟩, hid⟩
    exact ⟨x, hx, ⟨hid, hjob⟩, hkind⟩

theorem attemptCountOf_refund (db : Db) (jobId : ℕ) :
    attemptCountOf (db.updateJobs (fun j => j.id == jobId) Job.refundAttempt) jobId =
      attemptCountOf db jobId - 1 := by
  have hid : ∀ j : Job, (j.id == jobId) = true → j.refundAttempt.id = j.id := fun _ _ => rfl
  cases hjob : db.getJob jobId with
  | none =>
    rw [attemptCountOf, attemptCountOf, Db.getJob_updateJobs hid, hjob]
    rfl
  | some job =>
    have hread : (db.updateJobs (fun j => j.id == jobId) Job.refundAttempt).getJob jobId =
        some job.refundAttempt :=
      getJob_updateJobs_of_pos hid hjob (beq_iff_eq.mpr (Table.lookup_key hjob))
    rw [attemptCountOf_some hread, attemptCountOf_some hjob]
    rfl

theorem attemptCountOf_refund_of_ne (db : Db) {id jobId : ℕ} (hne : id ≠ jobId) :
    attemptCountOf (db.updateJobs (fun j => j.id == id) Job.refundAttempt) jobId =
      attemptCountOf db jobId :=
  attemptCountOf_of_getJob (Db.getJob_updateJobs_of_ne (fun _ _ => rfl)
    (fun _ hp => beq_iff_eq.mp hp ▸ hne))

/-- The count after a release: it drops by one if the call names a charged attempt. -/
theorem attemptCountOf_release (clock : Clock) {db : Db} (hids : (db.jobs.map Job.id).Nodup)
    (id token jobId : ℕ) (finalStatus : JobStatus) (readyAt : Option ℤ) (attemptId : Option ℕ) :
    attemptCountOf (releaseLeaseWithoutAttemptPenalty clock db id token finalStatus readyAt
        attemptId).1 jobId = attemptCountOf db jobId -
      (refundedByRelease db id token attemptId jobId).toList.length := by
  have hkept := kept_releaseLease ignoresLease_attemptCount clock db id token finalStatus readyAt
    hids
  have hcount := hkept.attemptCountOf jobId
  unfold releaseLeaseWithoutAttemptPenalty refundedByRelease
  dsimp only
  rw [releaseLease_answer]
  by_cases hleased : 0 < Table.changes (Job.isLeasedBy id token) db.jobs
  · rw [if_neg (by simp [hleased])]
    cases attemptId with
    | none =>
      have hsame : attemptCountOf db jobId -
          (if id = jobId ∧ 0 < Table.changes (Job.isLeasedBy jobId token) db.jobs then
            (none : Option ℕ).filter (fun a => a ∈ chargedAttempts db jobId)
          else none).toList.length = attemptCountOf db jobId := by
        split
        · rfl
        · rfl
      rw [hsame]
      dsimp only
      split
      · exact hcount
      · exact hcount
    | some a =>
      dsimp only
      by_cases hid : id = jobId
      · subst hid
        have htest := any_isCharged_iff (releaseLease clock db id token finalStatus readyAt).1 id a
        rw [chargedAttempts_of_attempts hkept.attempts] at htest
        by_cases hcharged : a ∈ chargedAttempts db id
        · rw [if_pos (htest.mpr hcharged), attemptCountOf_refund, hcount]
          simp [hleased, Option.filter, hcharged]
        · rw [if_neg (fun h => hcharged (htest.mp h)), hcount]
          simp [Option.filter, hcharged]
      · have hnone : ¬(id = jobId ∧ 0 < Table.changes (Job.isLeasedBy jobId token) db.jobs) :=
          fun h => hid h.1
        rw [if_neg hnone]
        split
        · rw [attemptCountOf_refund_of_ne _ hid, hcount]
          rfl
        · rw [hcount]
          rfl
  · rw [if_pos (by simp [hleased]), hcount]
    have hnone : ¬(id = jobId ∧ 0 < Table.changes (Job.isLeasedBy jobId token) db.jobs) :=
      fun h => hleased (h.1 ▸ h.2)
    rw [if_neg hnone]
    rfl

theorem refundedByRelease_charged {db : Db} {id token jobId a : ℕ} {attemptId : Option ℕ}
    (h : refundedByRelease db id token attemptId jobId = some a) : a ∈ chargedAttempts db jobId := by
  unfold refundedByRelease at h
  split at h
  · exact of_decide_eq_true (Option.filter_eq_some_iff.mp h).2
  · exact absurd h (by simp)

/-! ## 5. What any step does to the count -/

/-- The attempt a step refunds is one that was charged to the job. -/
theorem refundTarget_charged {jobId : ℕ} {db : Db} {op : ChargeOp} {a : ℕ}
    (h : refundTarget jobId db op = some a) : a ∈ chargedAttempts db jobId := by
  have hshutdown : ∀ id, refundedByShutdown db id jobId = some a →
      a ∈ chargedAttempts db jobId := by
    intro id hid
    unfold refundedByShutdown at hid
    split at hid
    · obtain ⟨job, hjob, hrefund⟩ := Option.bind_eq_some_iff.mp hid
      exact (Table.lookup_key hjob : job.id = jobId) ▸ refundedByRequeue_charged hrefund
    · exact absurd hid (by simp)
  cases op with
  | completeAttempt attemptId status => exact absurd h (by simp [refundTarget])
  | lease op =>
    cases op with
    | releaseLeaseWithoutAttemptPenalty clock id token finalStatus readyAt attemptId =>
      exact refundedByRelease_charged h
    | requeueExpiredLeases clock completedPlan =>
      have hcharged := refundedBySweep_charged h
      have hcleared := (kept_clearParkedLeases ignoresLease_attemptCount
        (db.jobs.filter (isParkedStale clock)) db).attempts
      exact chargedAttempts_of_attempts hcleared jobId ▸ hcharged
    | requeueAll clock completedPlan expired => exact refundedBySweep_charged h
    | requeueOrphanedJobs clock force ownerId lockName => exact refundedBySweep_charged h
    | requeueOrphanedRows clock force ownerId lockName => exact refundedBySweep_charged h
    | requeueForShutdown clock id => exact hshutdown id h
    | requeueShutdownRow clock id => exact hshutdown id h
    | _ => exact absurd h (by simp [refundTarget])

/-- The count drops by what the step refunds, and no attempt is added. -/
structure Refunds (jobId : ℕ) (target : Option ℕ) (db db' : Db) : Prop where
  attemptIds : db'.attempts.map Attempt.id = db.attempts.map Attempt.id
  charged : chargedAttempts db' jobId = chargedAttempts db jobId
  count : attemptCountOf db' jobId = attemptCountOf db jobId - target.toList.length

/-- An attempt is added under a fresh id, and counted if it is the job's. -/
structure Charges (jobId a : ℕ) (db db' : Db) : Prop where
  fresh : ∀ x ∈ db.attempts, x.id < a
  attemptIds : db'.attempts.map Attempt.id = db.attempts.map Attempt.id ++ [a]
  counted : (chargedAttempts db' jobId = chargedAttempts db jobId ++ [a] ∧
      attemptCountOf db' jobId = attemptCountOf db jobId + 1) ∨
    (chargedAttempts db' jobId = chargedAttempts db jobId ∧
      attemptCountOf db' jobId = attemptCountOf db jobId)

theorem Refunds.of_attempts {jobId : ℕ} {target : Option ℕ} {db db' : Db}
    (h : db'.attempts = db.attempts)
    (hcount : attemptCountOf db' jobId = attemptCountOf db jobId - target.toList.length) :
    Refunds jobId target db db' :=
  ⟨by rw [h], chargedAttempts_of_attempts h jobId, hcount⟩

theorem Refunds.of_kept {jobId : ℕ} {db db' : Db} (h : Kept Job.attemptCount db db') :
    Refunds jobId none db db' :=
  Refunds.of_attempts h.attempts (h.attemptCountOf jobId)

theorem Refunds.trans_kept {jobId : ℕ} {target : Option ℕ} {a b c : Db}
    (h : Refunds jobId target a b) (h' : Kept Job.attemptCount b c) :
    Refunds jobId target a c :=
  ⟨by rw [h'.attempts, h.attemptIds], by rw [chargedAttempts_of_attempts h'.attempts, h.charged],
    by rw [h'.attemptCountOf, h.count]⟩

theorem Refunds.of_kept_trans {jobId : ℕ} {target : Option ℕ} {a b c : Db}
    (h : Kept Job.attemptCount a b) (h' : Refunds jobId target b c) :
    Refunds jobId target a c :=
  ⟨by rw [h'.attemptIds, h.attempts], by rw [h'.charged, chargedAttempts_of_attempts h.attempts],
    by rw [h'.count, h.attemptCountOf]⟩

theorem RefundingSweep.refunds {step : Db → Job → Db} {selects : Job → Job → Bool}
    {requeues : Job → Bool} (h : RefundingSweep step selects requeues) {jobId : ℕ}
    {rows : List Job} (hactive : ∀ row ∈ rows, ∀ job, selects row job = true →
      job.status ∈ activeLeaseStatuses) {db : Db} (hids : (db.jobs.map Job.id).Nodup) :
    Refunds jobId (refundedBySweep selects requeues rows db jobId) db (rows.foldl step db) :=
  Refunds.of_attempts (h.foldl_attempts rows db) (h.attemptCountOf_foldl hactive hids)

theorem le_nextAttemptId {db : Db} {attempt : Attempt} (h : attempt ∈ db.attempts) :
    attempt.id < nextAttemptId db := by
  have hmax : ∀ (ids : List ℕ) (x : ℕ), x ∈ ids → x ≤ ids.foldr max 0 := by
    intro ids
    induction ids with
    | nil => simp
    | cons y ids ih =>
      intro x hx
      rcases List.mem_cons.mp hx with rfl | hx
      · exact le_max_left _ _
      · exact (ih x hx).trans (le_max_right _ _)
  exact Nat.lt_succ_of_le (hmax _ _ (List.mem_map.mpr ⟨attempt, h, rfl⟩))

theorem refunds_requeueAll (clock : Clock) (completedPlan : ℕ → Bool) (expired : List Job)
    (jobId : ℕ) {db : Db} (hids : (db.jobs.map Job.id).Nodup) :
    Refunds jobId (refundedBySweep (isExpiredRow clock) (requeuesExpired completedPlan) expired db
      jobId) db (requeueAll clock completedPlan expired db) := by
  have hfold : Refunds jobId (refundedBySweep (isExpiredRow clock)
      (requeuesExpired completedPlan) expired db jobId) db
      (expired.foldl (requeueExpiredLease clock completedPlan) db) :=
    (refundingSweep_expired clock completedPlan).refunds (fun _ _ _ => isExpiredRow_active) hids
  unfold requeueAll
  dsimp only
  split
  · exact hfold.trans_kept (kept_notify _ _)
  · exact hfold

theorem refunds_requeueOrphanedRows (clock : Clock) (force : Bool) (ownerId : Option String)
    (lockName : String) (jobId : ℕ) {db : Db} (hids : (db.jobs.map Job.id).Nodup) :
    Refunds jobId (refundedBySweep isOrphanRow requeuesOrphan
      (orphanedJobs clock db (mayForceRequeue clock db force ownerId lockName)) db jobId) db
      (requeueOrphanedRows clock db force ownerId lockName).1 := by
  refine (refundingSweep_orphaned clock).refunds (fun row hrow job hselects => ?_) hids
  have hactive := (List.mem_filter.mp hrow).2
  simp only [isOrphanRow, Bool.and_eq_true, beq_iff_eq, decide_eq_true_eq] at hactive hselects
  exact hselects.1.1.1.2 ▸ hactive.1

theorem charges_incrementAndCreateAttempt (clock : Clock) (db : Db) (id token : ℕ)
    (kind : AttemptKind) (jobId : ℕ) :
    (incrementAndCreateAttempt clock db id token kind).1 = db ∨
    Charges jobId (nextAttemptId db) db (incrementAndCreateAttempt clock db id token kind).1 := by
  unfold incrementAndCreateAttempt
  cases hvalid : isLeaseValid clock db id token with
  | false => exact Or.inl rfl
  | true =>
    rw [if_neg (by simp)]
    refine Or.inr ⟨fun x hx => le_nextAttemptId hx, by simp [Db.updateJobs], ?_⟩
    obtain ⟨job, hjob⟩ : ∃ job, db.getJob id = some job := by
      simp only [isLeaseValid, Option.any_eq_true] at hvalid
      exact ⟨_, hvalid.choose_spec.1⟩
    have hkind : (if kind = .human then AttemptKind.human else .implementation) ∈
        [AttemptKind.implementation, AttemptKind.human] := by
      split
      · simp
      · simp
    by_cases hid : id = jobId
    · subst hid
      refine Or.inl ⟨?_, ?_⟩
      · simp [chargedAttempts, isCharged, Db.updateJobs, List.filter_append]
      · have hread : (db.updateJobs (fun j => j.id == id)
            (fun j => { j with attemptCount := j.attemptCount + 1 })).getJob id =
              some { job with attemptCount := job.attemptCount + 1 } :=
          getJob_updateJobs_of_pos (fun _ _ => rfl) hjob (beq_iff_eq.mpr (Table.lookup_key hjob))
        rw [attemptCountOf_some hjob]
        exact attemptCountOf_some hread
    · refine Or.inr ⟨?_, ?_⟩
      · simp [chargedAttempts, isCharged, Db.updateJobs, List.filter_append, hid]
      · exact attemptCountOf_of_getJob (Db.getJob_updateJobs_of_ne (fun _ _ => rfl)
          (fun _ hp => beq_iff_eq.mp hp ▸ hid))

theorem refunds_releaseWithoutPenalty (clock : Clock) {db : Db}
    (hids : (db.jobs.map Job.id).Nodup) (id token jobId : ℕ) (finalStatus : JobStatus)
    (readyAt : Option ℤ) (attemptId : Option ℕ) :
    Refunds jobId (refundedByRelease db id token attemptId jobId) db
      (releaseLeaseWithoutAttemptPenalty clock db id token finalStatus readyAt attemptId).1 := by
  refine Refunds.of_attempts ?_
    (attemptCountOf_release clock hids id token jobId finalStatus readyAt attemptId)
  have hattempts := (kept_releaseLease ignoresLease_attemptCount clock db id token finalStatus
    readyAt hids).attempts
  unfold releaseLeaseWithoutAttemptPenalty
  dsimp only
  split
  · exact hattempts
  · split
    · split
      · exact hattempts
      · exact hattempts
    · split
      · exact hattempts
      · exact hattempts

theorem refunds_requeueShutdownRow (clock : Clock) (db : Db) (id jobId : ℕ) :
    Refunds jobId (refundedByShutdown db id jobId) db
      (requeueShutdownRow clock db id).1 := by
  have hπ : IgnoresLease (fun _ : Job => ()) := ⟨fun _ _ _ _ _ _ _ _ => rfl, fun _ _ _ => rfl⟩
  refine Refunds.of_attempts ?_ (attemptCountOf_requeueShutdownRow clock id jobId)
  unfold requeueShutdownRow
  split
  · rfl
  · split
    · rfl
    · exact ((kept_consumePendingHumanGateResume hπ _ id).attempts).trans
        (kept_markAssessOnly hπ _ id _).attempts

theorem requeueShutdownRow_refused {clock : Clock} {db : Db} {id : ℕ}
    (h : (requeueShutdownRow clock db id).2 ≠ true) : (requeueShutdownRow clock db id).1 = db := by
  unfold requeueShutdownRow at h ⊢
  split
  · rfl
  · rename_i row hrow
    rw [hrow] at h
    dsimp only at h
    split
    · rfl
    · rename_i hholding
      rw [if_neg hholding] at h
      exact absurd rfl h

theorem refunds_requeueForShutdown (clock : Clock) (db : Db) (id jobId : ℕ) :
    Refunds jobId (refundedByShutdown db id jobId) db
      (requeueForShutdown clock db id).1 := by
  have hrow := refunds_requeueShutdownRow clock db id jobId
  unfold requeueForShutdown
  dsimp only
  split
  · exact (hrow.trans_kept (kept_releaseJobLocksForStatus _ _ _)).trans_kept (kept_notify _ _)
  · rename_i hrefused
    rw [requeueShutdownRow_refused hrefused] at hrow
    exact hrow

theorem refunds_requeueOrphanedJobs (clock : Clock) (force : Bool) (ownerId : Option String)
    (lockName : String) (jobId : ℕ) {db : Db} (hids : (db.jobs.map Job.id).Nodup) :
    Refunds jobId (refundedBySweep isOrphanRow requeuesOrphan
      (orphanedJobs clock db (mayForceRequeue clock db force ownerId lockName)) db jobId) db
      (requeueOrphanedJobs clock db force ownerId lockName) := by
  have hrows := refunds_requeueOrphanedRows clock force ownerId lockName jobId hids
  have hsettle : ∀ (d : Db), ∀ row ∈ (requeueOrphanedRows clock db force ownerId lockName).2,
      Kept Job.attemptCount d (settleRequeuedJob d row.id
        (if row.jobType = .atlasWarm then .failed else .queued)) :=
    fun d row _ => kept_settleRequeuedJob ignoresLease_attemptCount d row.id _
  have hsettled := hrows.trans_kept (kept_foldl hsettle _)
  unfold requeueOrphanedJobs
  dsimp only
  split
  · exact hsettled
  · exact hsettled.trans_kept (kept_notify _ _)

/-- **Everything a step does to the count of a job.** -/
theorem chargeStep_spec (jobId : ℕ) {db : Db} (hids : (db.jobs.map Job.id).Nodup)
    (op : ChargeOp) :
    Refunds jobId (refundTarget jobId db op) db (chargeStep db op) ∨
      (refundTarget jobId db op = none ∧ ∃ a, Charges jobId a db (chargeStep db op)) := by
  have hcount := ignoresLease_attemptCount
  cases op with
  | completeAttempt attemptId status =>
    refine Or.inl ⟨?_, ?_, rfl⟩
    · exact Table.map_key_updateWhere (fun _ _ => rfl)
    · exact Table.map_filter_updateWhere (fun _ _ => rfl) (fun _ _ => rfl)
  | lease op =>
    cases op with
    | acquireLease clock id ownerId durationMs =>
      exact Or.inl (Refunds.of_kept (kept_acquireLease hcount clock db id ownerId durationMs))
    | acquireLeaseWithWriteLocks env clock id ownerId durationMs =>
      exact Or.inl (Refunds.of_kept
        (kept_acquireLeaseWithWriteLocks hcount env clock db id ownerId durationMs hids))
    | renewLease clock id token durationMs =>
      exact Or.inl (Refunds.of_kept (kept_renewLease hcount clock db id token durationMs))
    | releaseLease clock id token finalStatus readyAt =>
      exact Or.inl (Refunds.of_kept
        (kept_releaseLease hcount clock db id token finalStatus readyAt hids))
    | releaseLeaseWithoutAttemptPenalty clock id token finalStatus readyAt attemptId =>
      exact Or.inl (refunds_releaseWithoutPenalty clock hids id token jobId finalStatus readyAt
        attemptId)
    | incrementAndCreateAttempt clock id token kind =>
      rcases charges_incrementAndCreateAttempt clock db id token kind jobId with heq | hcharges
      · have hsame : chargeStep db (.lease (.incrementAndCreateAttempt clock id token kind)) = db :=
          heq
        rw [hsame]
        exact Or.inl (Refunds.of_kept (Kept.refl db))
      · exact Or.inr ⟨rfl, _, hcharges⟩
    | acquireAssessmentBarrier clock id token preserveStatus =>
      exact Or.inl (Refunds.of_kept
        (kept_acquireAssessmentBarrier hcount clock db id token preserveStatus))
    | requeueExpiredLeases clock completedPlan =>
      have hcleared := kept_clearParkedLeases hcount (db.jobs.filter (isParkedStale clock)) db
      exact Or.inl (Refunds.of_kept_trans hcleared (refunds_requeueAll clock completedPlan _ jobId
        (hcleared.ids ▸ hids)))
    | clearParkedLeases stale =>
      exact Or.inl (Refunds.of_kept (kept_clearParkedLeases hcount stale db))
    | requeueAll clock completedPlan expired =>
      exact Or.inl (refunds_requeueAll clock completedPlan expired jobId hids)
    | requeueOrphanedJobs clock force ownerId lockName =>
      exact Or.inl (refunds_requeueOrphanedJobs clock force ownerId lockName jobId hids)
    | requeueOrphanedRows clock force ownerId lockName =>
      exact Or.inl (refunds_requeueOrphanedRows clock force ownerId lockName jobId hids)
    | requeueForShutdown clock id =>
      exact Or.inl (refunds_requeueForShutdown clock db id jobId)
    | requeueShutdownRow clock id => exact Or.inl (refunds_requeueShutdownRow clock db id jobId)
    | settleRequeuedJob id status =>
      exact Or.inl (Refunds.of_kept (kept_settleRequeuedJob hcount db id status))
    | updateJobStatus clock id status options =>
      exact Or.inl (Refunds.of_kept (kept_updateJobStatus hcount clock db id status options hids))

/-! ## 6. Runs -/

/-- A state of a run with the attempts of the job that were refunded on the way. -/
structure Ledger where
  db : Db
  refunded : List ℕ := []

/-- One transaction, recorded. -/
def ledgerStep (jobId : ℕ) (s : Ledger) (op : ChargeOp) : Ledger :=
  { db := chargeStep s.db op, refunded := s.refunded ++ (refundTarget jobId s.db op).toList }

/-- The attempt a step refunds was created after those the job was refunded before. -/
def RefundsNewAttempt (jobId : ℕ) (s : Ledger) (op : ChargeOp) : Prop :=
  ∀ a ∈ refundTarget jobId s.db op, ∀ b ∈ s.refunded, b < a

instance (jobId : ℕ) (s : Ledger) (op : ChargeOp) : Decidable (RefundsNewAttempt jobId s op) :=
  inferInstanceAs (Decidable (∀ a ∈ refundTarget jobId s.db op, ∀ b ∈ s.refunded, b < a))

/-- The recorded run is the run. -/
theorem ledger_db (jobId : ℕ) (s : Ledger) (ops : List ChargeOp) :
    (Runs.run (ledgerStep jobId) s ops).db = Runs.run chargeStep s.db ops := by
  induction ops generalizing s with
  | nil => rfl
  | cons op ops ih => exact ih (ledgerStep jobId s op)

/-- The count is what was charged and not refunded, and nothing was refunded twice. -/
structure Balanced (jobId : ℕ) (s : Ledger) : Prop where
  jobIds : (s.db.jobs.map Job.id).Nodup
  attemptIds : (s.db.attempts.map Attempt.id).Nodup
  refunded : s.refunded ⊆ chargedAttempts s.db jobId
  once : s.refunded.Nodup
  count : attemptCountOf s.db jobId + s.refunded.length = (chargedAttempts s.db jobId).length

theorem chargeStep_ids (db : Db) (op : ChargeOp) :
    (chargeStep db op).jobs.map Job.id = db.jobs.map Job.id := by
  cases op with
  | lease op => exact (fenced_leaseStep db op).ids
  | completeAttempt attemptId status => rfl

/-- A list without duplicates inside another is not longer; with one element more to spare it
is shorter. -/
theorem length_lt_of_nodup_subset {l l' : List ℕ} {a : ℕ} (hnd : l.Nodup) (hsub : l ⊆ l')
    (ha : a ∈ l') (hnot : a ∉ l) : l.length < l'.length := by
  have hcons : (a :: l).Nodup := List.nodup_cons.mpr ⟨hnot, hnd⟩
  have hle := (hcons.subperm (List.cons_subset.mpr ⟨ha, hsub⟩)).length_le
  rwa [List.length_cons] at hle

theorem Balanced.step {jobId : ℕ} {s : Ledger} (h : Balanced jobId s) (op : ChargeOp)
    (hnew : RefundsNewAttempt jobId s op) : Balanced jobId (ledgerStep jobId s op) := by
  have hids : ((ledgerStep jobId s op).db.jobs.map Job.id).Nodup :=
    chargeStep_ids s.db op ▸ h.jobIds
  rcases chargeStep_spec jobId h.jobIds op with hrefunds | ⟨hnone, a, hcharges⟩
  · cases htarget : refundTarget jobId s.db op with
    | none =>
      rw [htarget] at hrefunds
      have hrefunded : (ledgerStep jobId s op).refunded = s.refunded := by
        simp [ledgerStep, htarget]
      refine ⟨hids, hrefunds.attemptIds ▸ h.attemptIds, ?_, hrefunded ▸ h.once, ?_⟩
      · rw [hrefunded]
        exact hrefunds.charged ▸ h.refunded
      · rw [hrefunded]
        exact hrefunds.charged ▸ hrefunds.count ▸ h.count
    | some a =>
      rw [htarget] at hrefunds
      have hcharged : a ∈ chargedAttempts s.db jobId := refundTarget_charged htarget
      have hfresh : a ∉ s.refunded := fun hmem => lt_irrefl a (hnew a htarget a hmem)
      have hrefunded : (ledgerStep jobId s op).refunded = s.refunded ++ [a] := by
        simp [ledgerStep, htarget]
      have hdb : (ledgerStep jobId s op).db = chargeStep s.db op := rfl
      refine ⟨hids, hrefunds.attemptIds ▸ h.attemptIds, ?_, ?_, ?_⟩
      · rw [hrefunded, hdb, hrefunds.charged]
        exact List.append_subset.mpr ⟨h.refunded, by simpa using hcharged⟩
      · rw [hrefunded, ← List.concat_eq_append]
        exact h.once.concat hfresh
      · -- an attempt is still charged, so the count is positive and does drop
        have hlt := length_lt_of_nodup_subset h.once h.refunded hcharged hfresh
        have hcount := h.count
        rw [hrefunded, hdb, hrefunds.charged, hrefunds.count, List.length_append]
        simp only [Option.toList_some, List.length_singleton]
        omega
  · have hrefunded : (ledgerStep jobId s op).refunded = s.refunded := by
      simp [ledgerStep, hnone]
    have hdb : (ledgerStep jobId s op).db = chargeStep s.db op := rfl
    have hcount := h.count
    have hattemptIds : ((chargeStep s.db op).attempts.map Attempt.id).Nodup := by
      rw [hcharges.attemptIds, ← List.concat_eq_append]
      refine h.attemptIds.concat (fun hmem => ?_)
      obtain ⟨x, hx, hid⟩ := List.mem_map.mp hmem
      exact absurd (hcharges.fresh x hx) (hid ▸ lt_irrefl _)
    rcases hcharges.counted with ⟨hcharged, hmore⟩ | ⟨hcharged, hsame⟩
    · refine ⟨hids, hattemptIds, ?_, hrefunded ▸ h.once, ?_⟩
      · rw [hrefunded, hdb, hcharged]
        exact List.subset_append_of_subset_left [a] h.refunded
      · rw [hrefunded, hdb, hcharged, hmore, List.length_append, List.length_singleton]
        omega
    · refine ⟨hids, hattemptIds, ?_, hrefunded ▸ h.once, ?_⟩
      · rw [hrefunded, hdb, hcharged]
        exact h.refunded
      · rw [hrefunded, hdb, hcharged, hsame]
        exact hcount

/-- The condition cannot be dropped: a step that refunds an attempt again, while the count is
positive, makes the count wrong. -/
theorem Balanced.count_ne {jobId a : ℕ} {s : Ledger} (h : Balanced jobId s) {op : ChargeOp}
    (htarget : refundTarget jobId s.db op = some a) (hagain : a ∈ s.refunded)
    (hpos : 0 < attemptCountOf s.db jobId) :
    attemptCountOf (chargeStep s.db op) jobId ≠ (chargedAttempts (chargeStep s.db op) jobId).length -
      (ledgerStep jobId s op).refunded.toFinset.card := by
  have hcard : (ledgerStep jobId s op).refunded.toFinset.card = s.refunded.length := by
    rw [← List.toFinset_card_of_nodup h.once]
    congr 1
    ext b
    simp only [ledgerStep, htarget, Option.toList_some, List.mem_toFinset, List.mem_append,
      List.mem_singleton]
    exact ⟨fun hb => hb.elim id (fun hb => hb ▸ hagain), Or.inl⟩
  have hcount := h.count
  rcases chargeStep_spec jobId h.jobIds op with hrefunds | ⟨hnone, -⟩
  · rw [htarget] at hrefunds
    rw [hcard, hrefunds.charged, hrefunds.count]
    simp only [Option.toList_some, List.length_singleton]
    omega
  · exact absurd (htarget.symm.trans hnone) (by simp)

/-- A job whose lease is taken and marked running, and that creates an attempt under it. -/
def attemptUnderLease (clock : Clock) (jobId token : ℕ) : List ChargeOp :=
  [.lease (.acquireLease clock jobId "scheduler" 900),
    .lease (.updateJobStatus clock jobId .running { leaseToken := some token }),
    .lease (.incrementAndCreateAttempt clock jobId token .implementation)]

end PosseClient
