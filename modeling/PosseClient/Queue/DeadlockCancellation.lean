/-
# Deadlocked jobs: the pass that cancels what can never start

`findDeadlockedJobs` of `dependencies.js` and `cancelDeadlockedJobsAtomic` of `queue-store.js`.
A hard dependency is met by `succeeded` alone, so a queued job behind a hard dependency that
ended in any other way can never start; canceling it ends its own dependents in turn, and the
canceller repeats its pass until nothing is deadlocked.

* `Doomed` says which jobs these are, with no order of passes: a chain of hard dependencies
  through queued jobs to a job that failed.  `Canceling` is the invariant of every pass.
* One cancellation takes one job out of the queued ones, and a pass over a nonempty list of
  deadlocked jobs cancels its first, so the number of queued jobs bounds the passes, also where
  the dependencies have a cycle.
* The rollback of a canceled job's handoffs is `cancelUnusedReviewedTransfers`; its other half
  rewrites texts of payloads and metadata and no row of `jobs` but in its payload.
-/
import PosseClient.Queue.Leases
import PosseClient.Lib.Shedding

namespace PosseClient

/-! ## 1. The detector and the canceller -/

/-- `DEADLOCK_TERMINAL_STATUSES`. -/
def deadlockTerminalStatuses : List JobStatus :=
  terminalJobStatuses.filter (fun s => s ≠ .succeeded)

/-- The `EXISTS` clause of both statements: a hard dependency of the job is a row that ended
without success. -/
def hardDependencyFailed (db : Db) (jobId : ℕ) : Bool :=
  db.dependencies.any (fun jd => jd.jobId == jobId && jd.kind == .hard &&
    db.jobs.any (fun dep => dep.id == jd.dependsOnJobId && dep.status ∈ deadlockTerminalStatuses))

/-- `findDeadlockedJobs`; a work item of no positive id filters nothing. -/
def findDeadlockedJobs (db : Db) (workItemId : Option ℕ) : List Job :=
  db.jobs.filter (fun j => j.status == .queued &&
    (workItemId.filter (0 < ·)).all (fun id => j.workItemId == some id) &&
    hardDependencyFailed db j.id)

/-- What the transaction of `cancelDeadlockedJobsAtomic` carries from pass to pass. -/
structure DeadlockPass where
  db : Db
  canceled : List Job := []
  affectedWIs : List ℕ := []
  changedThisPass : ℕ := 0

/-- The `WHERE` clause of `cancelStmt`. -/
def isDeadlockedRow (db : Db) (jobId : ℕ) (job : Job) : Bool :=
  job.id == jobId && job.status == .queued && hardDependencyFailed db job.id

/-- The row `cancelStmt` writes. -/
def Job.cancelDeadlocked (clock : Clock) (job : Job) : Job :=
  { job.unlease with status := .canceled, finishedAt := some clock.now }

/-- One job of a pass. -/
def cancelDeadlockedJob (clock : Clock) (pass : DeadlockPass) (job : Job) : DeadlockPass :=
  if Table.changes (isDeadlockedRow pass.db job.id) pass.db.jobs = 0 then pass
  else
    { db := cancelUnusedReviewedTransfers (pass.db.updateJobs (isDeadlockedRow pass.db job.id)
        (Job.cancelDeadlocked clock)) job.id
      canceled := pass.canceled ++ [job]
      affectedWIs := match job.workItemId with
        | none => pass.affectedWIs
        | some id => if id = 0 ∨ id ∈ pass.affectedWIs then pass.affectedWIs
          else pass.affectedWIs ++ [id]
      changedThisPass := pass.changedThisPass + 1 }

/-- The `while` loop, for at most `fuel` rounds; `none` is a loop that has not ended by then. -/
def cancelDeadlockedPasses (clock : Clock) (workItemId : Option ℕ) :
    ℕ → DeadlockPass → Option DeadlockPass
  | 0, _ => none
  | fuel + 1, acc =>
    let deadlocked := findDeadlockedJobs acc.db workItemId
    if deadlocked = [] then some acc
    else
      let pass := deadlocked.foldl (cancelDeadlockedJob clock) { acc with changedThisPass := 0 }
      if pass.changedThisPass = 0 then some pass
      else cancelDeadlockedPasses clock workItemId fuel pass

/-- What `cancelDeadlockedJobsAtomic` answers, and the database it leaves. -/
structure DeadlockCancellation where
  db : Db
  canceled : List Job
  affectedWorkItemIds : List ℕ

/-- What follows the loop: the wake, and the answer. -/
def DeadlockPass.finish (pass : DeadlockPass) : DeadlockCancellation :=
  { db := if pass.canceled = [] then pass.db
      else pass.db.notify { reason := .jobDeadlockedCanceled }
    canceled := pass.canceled
    affectedWorkItemIds := pass.affectedWIs }

/-- `cancelDeadlockedJobsAtomic`.  The session lanes of the affected work items are invalidated
in tables of their own. -/
def cancelDeadlockedJobsAtomic (clock : Clock) (fuel : ℕ) (db : Db) (workItemId : Option ℕ) :
    Option DeadlockCancellation :=
  if findDeadlockedJobs db workItemId = [] then some ⟨db, [], []⟩
  else (cancelDeadlockedPasses clock workItemId fuel { db := db }).map DeadlockPass.finish

/-! ## 2. The jobs that can never start -/

/-- A hard edge of `job_dependencies`. -/
def HardDependency (db : Db) (jobId dependsOnId : ℕ) : Prop :=
  ∃ jd ∈ db.dependencies,
    jd.jobId = jobId ∧ jd.dependsOnJobId = dependsOnId ∧ jd.kind = .hard

/-- A row of `jobs` in one of these statuses. -/
def HasStatus (db : Db) (statuses : List JobStatus) (jobId : ℕ) : Prop :=
  ∃ row ∈ db.jobs, row.id = jobId ∧ row.status ∈ statuses

/-- **A job that can never start**: a chain of hard dependencies leads from it, through queued
jobs, to a job that was failed, dead-lettered or canceled. -/
inductive Doomed (db : Db) : ℕ → Prop
  | failed {j d : ℕ} (hedge : HardDependency db j d)
      (hfailed : HasStatus db deadlockTerminalStatuses d) : Doomed db j
  | through {j d : ℕ} (hedge : HardDependency db j d) (hqueued : HasStatus db [.queued] d)
      (hdoomed : Doomed db d) : Doomed db j

theorem hardDependencyFailed_iff {db : Db} {jobId : ℕ} :
    hardDependencyFailed db jobId = true ↔
      ∃ d, HardDependency db jobId d ∧ HasStatus db deadlockTerminalStatuses d := by
  simp only [hardDependencyFailed, List.any_eq_true, Bool.and_eq_true, beq_iff_eq,
    decide_eq_true_eq]
  constructor
  · rintro ⟨jd, hjd, ⟨hid, hkind⟩, row, hrow, hrowid, hstatus⟩
    exact ⟨jd.dependsOnJobId, ⟨jd, hjd, hid, rfl, hkind⟩, row, hrow, hrowid, hstatus⟩
  · rintro ⟨d, ⟨jd, hjd, hid, hd, hkind⟩, row, hrow, hrowid, hstatus⟩
    exact ⟨jd, hjd, ⟨hid, hkind⟩, row, hrow, hrowid.trans hd.symm, hstatus⟩

theorem mem_findDeadlockedJobs {db : Db} {job : Job} :
    job ∈ findDeadlockedJobs db none ↔
      job ∈ db.jobs ∧ job.status = .queued ∧ hardDependencyFailed db job.id = true := by
  simp [findDeadlockedJobs]

theorem isDeadlockedRow_iff {db : Db} {jobId : ℕ} {job : Job} :
    isDeadlockedRow db jobId job = true ↔
      job.id = jobId ∧ job.status = .queued ∧ hardDependencyFailed db job.id = true := by
  simp [isDeadlockedRow, and_assoc]

/-- A queued job has not ended. -/
theorem queued_not_deadlockTerminal : JobStatus.queued ∉ deadlockTerminalStatuses := by decide

theorem canceled_deadlockTerminal : JobStatus.canceled ∈ deadlockTerminalStatuses := by decide

/-! ## 3. The rollback leaves ids, statuses and dependencies -/

/-- Rows of the same jobs in the same statuses. -/
def SameStatus (job job' : Job) : Prop := job'.id = job.id ∧ job'.status = job.status

theorem cancelUnusedReviewedTransfers_dependencies (db : Db) (jobId : ℕ) :
    (cancelUnusedReviewedTransfers db jobId).dependencies = db.dependencies := by
  unfold cancelUnusedReviewedTransfers
  split
  · rfl
  · dsimp only
    split
    · rfl
    · split
      · rfl
      · exact (locksOnly_returnTransfers db _ jobId _).dependencies

theorem cancelUnusedReviewedTransfers_statuses (db : Db) (jobId : ℕ) :
    List.Forall₂ SameStatus db.jobs (cancelUnusedReviewedTransfers db jobId).jobs := by
  have hrefl : ∀ job : Job, SameStatus job job := fun _ => ⟨rfl, rfl⟩
  have hself : List.Forall₂ SameStatus db.jobs db.jobs :=
    List.forall₂_same.mpr fun job _ => hrefl job
  unfold cancelUnusedReviewedTransfers
  split
  · exact hself
  · dsimp only
    split
    · exact hself
    · split
      · exact hself
      · rw [Db.notify_jobs, Db.updateJobs, (locksOnly_returnTransfers db _ jobId _).jobs]
        exact Table.forall₂_updateWhere hrefl fun _ _ _ => ⟨rfl, rfl⟩

/-! ## 4. What every pass keeps -/

/-- A row is as it was, or was a queued and doomed one that this call canceled. -/
def RowCanceling (db : Db) (canceled : List ℕ) (job job' : Job) : Prop :=
  job'.id = job.id ∧ (job'.status = job.status ∨
    job.status = .queued ∧ job'.status = .canceled ∧ Doomed db job.id ∧ job.id ∈ canceled)

/-- **The invariant of the passes** over the database `db` of the call. -/
structure Canceling (db : Db) (pass : DeadlockPass) : Prop where
  dependencies : pass.db.dependencies = db.dependencies
  rows : List.Forall₂ (RowCanceling db (pass.canceled.map Job.id)) db.jobs pass.db.jobs
  canceled : ∀ id ∈ pass.canceled.map Job.id, HasStatus db [.queued] id ∧ Doomed db id

theorem Canceling.init (db : Db) : Canceling db { db := db } :=
  ⟨rfl, List.forall₂_same.mpr fun _ _ => ⟨rfl, Or.inl rfl⟩, by simp⟩

variable {db : Db} {pass : DeadlockPass}

/-- A row that is queued now was queued at the call. -/
theorem Canceling.queued (h : Canceling db pass) {id : ℕ}
    (hid : HasStatus pass.db [.queued] id) : HasStatus db [.queued] id := by
  obtain ⟨row', hrow', hrowid, hstatus⟩ := hid
  obtain ⟨row, hrow, hkey, hsame | ⟨hqueued, -, -⟩⟩ := Table.exists_of_mem_forall₂ h.rows hrow'
  · exact ⟨row, hrow, hkey.symm.trans hrowid, hsame ▸ hstatus⟩
  · exact ⟨row, hrow, hkey.symm.trans hrowid, by simp [hqueued]⟩

/-- What the detector sees in a pass was doomed from the start. -/
theorem Canceling.doomed (h : Canceling db pass) {id : ℕ}
    (hid : hardDependencyFailed pass.db id = true) : Doomed db id := by
  obtain ⟨d, hedge, row', hrow', hrowid, hstatus⟩ := hardDependencyFailed_iff.mp hid
  rw [HardDependency, h.dependencies] at hedge
  obtain ⟨row, hrow, hkey, hsame | ⟨hqueued, -, hdoomed, -⟩⟩ :=
    Table.exists_of_mem_forall₂ h.rows hrow'
  · exact .failed hedge ⟨row, hrow, hkey.symm.trans hrowid, hsame ▸ hstatus⟩
  · obtain rfl : row.id = d := hkey.symm.trans hrowid
    exact .through hedge ⟨row, hrow, rfl, by simp [hqueued]⟩ hdoomed

/-- One statement of a pass, on the rows. -/
theorem Canceling.update (h : Canceling db pass) (clock : Clock) (jobId : ℕ) :
    List.Forall₂ (RowCanceling db (pass.canceled.map Job.id ++ [jobId])) db.jobs
      (pass.db.updateJobs (isDeadlockedRow pass.db jobId) (Job.cancelDeadlocked clock)).jobs := by
  have hupdate : List.Forall₂ (fun job job' : Job => job' = job ∨
      isDeadlockedRow pass.db jobId job = true ∧ job' = job.cancelDeadlocked clock)
      pass.db.jobs
      (Table.updateWhere (isDeadlockedRow pass.db jobId) (Job.cancelDeadlocked clock)
        pass.db.jobs) :=
    Table.forall₂_updateWhere (fun _ => Or.inl rfl) fun _ _ hp => Or.inr ⟨hp, rfl⟩
  refine Shedding.forall₂_comp h.rows hupdate ?_
  intro job _ job' job'' hrow hstep
  obtain ⟨hid, hstatus⟩ := hrow
  rcases hstep with rfl | ⟨hp, rfl⟩
  · refine ⟨hid, ?_⟩
    rcases hstatus with hsame | ⟨hqueued, hcanceled, hdoomed, hlisted⟩
    · exact Or.inl hsame
    · exact Or.inr ⟨hqueued, hcanceled, hdoomed, List.mem_append_left _ hlisted⟩
  · -- the statement found this row queued, so nothing had changed it before
    obtain ⟨hjob, hqueued, hfailed⟩ := isDeadlockedRow_iff.mp hp
    refine ⟨hid, Or.inr ⟨?_, rfl, hid ▸ h.doomed hfailed, ?_⟩⟩
    · rcases hstatus with hsame | ⟨-, hcanceled, -⟩
      · exact hsame.symm.trans hqueued
      · rw [hqueued] at hcanceled
        cases hcanceled
    · rw [← hid, hjob]
      simp

/-- **One job of a pass keeps the invariant.** -/
theorem Canceling.cancelDeadlockedJob (h : Canceling db pass) (clock : Clock) (job : Job) :
    Canceling db (cancelDeadlockedJob clock pass job) := by
  unfold PosseClient.cancelDeadlockedJob
  split
  next => exact h
  next hchanges =>
    obtain ⟨row, hrow, hp⟩ := Table.changes_pos_iff.mp (Nat.pos_of_ne_zero hchanges)
    obtain ⟨hid, hqueued, hfailed⟩ := isDeadlockedRow_iff.mp hp
    constructor
    · rw [cancelUnusedReviewedTransfers_dependencies]
      exact h.dependencies
    · rw [List.map_append, List.map_singleton]
      refine Shedding.forall₂_comp (h.update clock job.id)
        (cancelUnusedReviewedTransfers_statuses _ job.id) ?_
      rintro _ _ _ _ ⟨hid', hstatus'⟩ ⟨hsame, hstatus⟩
      exact ⟨hsame.trans hid', hstatus ▸ hstatus'⟩
    · intro id hmem
      rw [List.map_append, List.map_singleton, List.mem_append, List.mem_singleton] at hmem
      rcases hmem with hmem | rfl
      · exact h.canceled id hmem
      · rw [← hid]
        exact ⟨h.queued ⟨row, hrow, rfl, by simp [hqueued]⟩, h.doomed hfailed⟩

theorem Canceling.foldl (clock : Clock) (jobs : List Job) (h : Canceling db pass) :
    Canceling db (jobs.foldl (PosseClient.cancelDeadlockedJob clock) pass) := by
  induction jobs generalizing pass with
  | nil => exact h
  | cons job jobs ih => exact ih (h.cancelDeadlockedJob clock job)

/-! ## 5. Each pass cancels a job -/

/-- The queued jobs, which bound the passes. -/
def Db.queuedCount (db : Db) : ℕ := db.jobs.countP (fun job => job.status == .queued)

theorem queuedCount_of_forall₂ {jobs jobs' : List Job} (h : List.Forall₂ SameStatus jobs jobs') :
    jobs'.countP (fun job => job.status == .queued) =
      jobs.countP (fun job => job.status == .queued) := by
  induction h with
  | nil => rfl
  | cons hsame _ ih => rw [List.countP_cons, List.countP_cons, ih, hsame.2]

/-- Rows that leave a status are no longer counted in it. -/
theorem countP_updateWhere_add {p q : Job → Bool} {f : Job → Job}
    (hp : ∀ job, p job = true → q job = true ∧ q (f job) = false) (jobs : List Job) :
    (Table.updateWhere p f jobs).countP q + Table.changes p jobs = jobs.countP q := by
  induction jobs with
  | nil => rfl
  | cons job jobs ih =>
    rw [Table.changes] at ih ⊢
    rw [Table.updateWhere_cons, List.countP_cons, List.countP_cons, List.countP_cons]
    cases hpj : p job with
    | false =>
      simp only [Bool.false_eq_true, if_false]
      omega
    | true =>
      simp only [if_true, (hp job hpj).1, (hp job hpj).2, Bool.false_eq_true, if_false]
      omega

theorem queuedCount_cancelDeadlockedJob (clock : Clock) (pass : DeadlockPass) (job : Job) :
    (cancelDeadlockedJob clock pass job).db.queuedCount +
        (cancelDeadlockedJob clock pass job).changedThisPass ≤
      pass.db.queuedCount + pass.changedThisPass := by
  unfold cancelDeadlockedJob
  split
  next => exact le_rfl
  next hchanges =>
    have hcount := countP_updateWhere_add (p := isDeadlockedRow pass.db job.id)
      (q := fun job => job.status == .queued) (f := Job.cancelDeadlocked clock)
      (by
        intro row hp
        have hqueued := (isDeadlockedRow_iff.mp hp).2.1
        exact ⟨by simp [hqueued], by simp [Job.cancelDeadlocked]⟩) pass.db.jobs
    have hsame := queuedCount_of_forall₂ (cancelUnusedReviewedTransfers_statuses
      (pass.db.updateJobs (isDeadlockedRow pass.db job.id) (Job.cancelDeadlocked clock)) job.id)
    simp only [Db.queuedCount, hsame]
    simp only [Db.updateJobs]
    omega

theorem queuedCount_foldl (clock : Clock) (jobs : List Job) (pass : DeadlockPass) :
    (jobs.foldl (cancelDeadlockedJob clock) pass).db.queuedCount +
        (jobs.foldl (cancelDeadlockedJob clock) pass).changedThisPass ≤
      pass.db.queuedCount + pass.changedThisPass := by
  induction jobs generalizing pass with
  | nil => exact le_rfl
  | cons job jobs ih =>
    rw [List.foldl_cons]
    exact (ih _).trans (queuedCount_cancelDeadlockedJob clock pass job)

theorem changedThisPass_mono (clock : Clock) (jobs : List Job) (pass : DeadlockPass) :
    pass.changedThisPass ≤ (jobs.foldl (cancelDeadlockedJob clock) pass).changedThisPass := by
  induction jobs generalizing pass with
  | nil => exact le_rfl
  | cons job jobs ih =>
    rw [List.foldl_cons]
    refine le_trans ?_ (ih _)
    unfold cancelDeadlockedJob
    split
    · exact le_rfl
    · exact Nat.le_succ _

/-- A pass over deadlocked jobs cancels the first of them. -/
theorem changedThisPass_pos (clock : Clock) (pass : DeadlockPass) {jobs : List Job}
    (h : ∀ job ∈ jobs, job ∈ pass.db.jobs ∧ job.status = .queued ∧
      hardDependencyFailed pass.db job.id = true) (hne : jobs ≠ []) :
    0 < (jobs.foldl (cancelDeadlockedJob clock) pass).changedThisPass := by
  cases jobs with
  | nil => exact absurd rfl hne
  | cons job jobs =>
    obtain ⟨hmem, hqueued, hfailed⟩ := h job List.mem_cons_self
    rw [List.foldl_cons]
    refine lt_of_lt_of_le ?_ (changedThisPass_mono clock jobs _)
    have hchanges : Table.changes (isDeadlockedRow pass.db job.id) pass.db.jobs ≠ 0 := by
      have hpos : 0 < Table.changes (isDeadlockedRow pass.db job.id) pass.db.jobs :=
        Table.changes_pos_iff.mpr ⟨job, hmem, isDeadlockedRow_iff.mpr ⟨rfl, hqueued, hfailed⟩⟩
      omega
    rw [cancelDeadlockedJob, if_neg hchanges]
    exact Nat.succ_pos _

/-- **The loop ends**, and only when nothing is deadlocked. -/
theorem cancelDeadlockedPasses_ends (clock : Clock) (pass : DeadlockPass) {fuel : ℕ}
    (hfuel : pass.db.queuedCount < fuel) (h : Canceling db pass) :
    ∃ final, cancelDeadlockedPasses clock none fuel pass = some final ∧ Canceling db final ∧
      findDeadlockedJobs final.db none = [] := by
  induction fuel generalizing pass with
  | zero => exact absurd hfuel (Nat.not_lt_zero _)
  | succ fuel ih =>
    rw [cancelDeadlockedPasses]
    by_cases hnone : findDeadlockedJobs pass.db none = []
    · exact ⟨pass, if_pos hnone, h, hnone⟩
    · have hstart : Canceling db { pass with changedThisPass := 0 } :=
        ⟨h.dependencies, h.rows, h.canceled⟩
      have hpos := changedThisPass_pos clock { pass with changedThisPass := 0 }
        (fun job hjob => mem_findDeadlockedJobs.mp hjob) hnone
      have hcount := queuedCount_foldl clock (findDeadlockedJobs pass.db none)
        { pass with changedThisPass := 0 }
      dsimp only at hpos hcount ⊢
      rw [if_neg hnone, if_neg (by omega)]
      exact ih _ (by omega) (hstart.foldl clock _)

/-! ## 6. The least fixpoint -/

/-- Where nothing is deadlocked, every doomed job has a hard dependency that ended: the chain
has been walked to its end. -/
theorem Canceling.hardDependencyFailed_of_doomed (h : Canceling db pass)
    (hnone : findDeadlockedJobs pass.db none = []) {id : ℕ} (hdoomed : Doomed db id) :
    hardDependencyFailed pass.db id = true := by
  have hedge : ∀ {j d : ℕ}, HardDependency db j d → HardDependency pass.db j d := by
    intro j d hjd
    rwa [HardDependency, h.dependencies]
  induction hdoomed with
  | failed hjd hfailed =>
    obtain ⟨row, hrow, hrowid, hstatus⟩ := hfailed
    obtain ⟨row', hrow', hkey, hsame | ⟨hqueued, -⟩⟩ :=
      Table.exists_of_mem_forall₂' h.rows hrow
    · exact hardDependencyFailed_iff.mpr
        ⟨_, hedge hjd, row', hrow', hkey.trans hrowid, hsame ▸ hstatus⟩
    · rw [hqueued] at hstatus
      exact absurd hstatus queued_not_deadlockTerminal
  | through hjd hqueued _ ih =>
    obtain ⟨row, hrow, hrowid, hstatus⟩ := hqueued
    have hrowqueued : row.status = .queued := List.mem_singleton.mp hstatus
    obtain ⟨row', hrow', hkey, hsame | ⟨-, hcanceled, -⟩⟩ :=
      Table.exists_of_mem_forall₂' h.rows hrow
    · -- a queued row whose hard dependency ended would still be deadlocked
      have hmem : row' ∈ findDeadlockedJobs pass.db none :=
        mem_findDeadlockedJobs.mpr
          ⟨hrow', hsame.trans hrowqueued, by rw [hkey, hrowid]; exact ih⟩
      rw [hnone] at hmem
      simp at hmem
    · exact hardDependencyFailed_iff.mpr
        ⟨_, hedge hjd, row', hrow', hkey.trans hrowid, hcanceled ▸ canceled_deadlockTerminal⟩

/-- The rows at the end of the passes: exactly the queued and doomed ones are canceled. -/
theorem Canceling.final_rows (h : Canceling db pass)
    (hnone : findDeadlockedJobs pass.db none = []) :
    List.Forall₂ (fun job job' => job'.id = job.id ∧
      (job.status = .queued ∧ Doomed db job.id ∧ job'.status = .canceled ∧
          job.id ∈ pass.canceled.map Job.id ∨
        ¬ (job.status = .queued ∧ Doomed db job.id) ∧ job'.status = job.status))
      db.jobs pass.db.jobs := by
  have hmem : List.Forall₂ (fun _ job' => job' ∈ pass.db.jobs) db.jobs pass.db.jobs := by
    rw [List.forall₂_iff_get]
    exact ⟨h.rows.length_eq, fun _ _ hi => List.get_mem _ ⟨_, hi⟩⟩
  refine List.Forall₂.mp ?_ h.rows hmem
  rintro job job' ⟨hid, hstatus⟩ hjob'
  refine ⟨hid, ?_⟩
  rcases hstatus with hsame | ⟨hqueued, hcanceled, hdoomed, hlisted⟩
  · refine Or.inr ⟨?_, hsame⟩
    rintro ⟨hqueued, hdoomed⟩
    have hfound : job' ∈ findDeadlockedJobs pass.db none :=
      mem_findDeadlockedJobs.mpr ⟨hjob', hsame.trans hqueued,
        hid ▸ h.hardDependencyFailed_of_doomed hnone hdoomed⟩
    rw [hnone] at hfound
    simp at hfound
  · exact Or.inl ⟨hqueued, hdoomed, hcanceled, hlisted⟩

theorem Canceling.mem_canceled (h : Canceling db pass)
    (hnone : findDeadlockedJobs pass.db none = []) {id : ℕ} :
    id ∈ pass.canceled.map Job.id ↔ HasStatus db [.queued] id ∧ Doomed db id := by
  constructor
  · exact h.canceled id
  · rintro ⟨⟨row, hrow, rfl, hqueued⟩, hdoomed⟩
    obtain ⟨row', -, -, ⟨-, -, -, hlisted⟩ | ⟨hnot, -⟩⟩ :=
      Table.exists_of_mem_forall₂' (h.final_rows hnone) hrow
    · exact hlisted
    · exact absurd ⟨List.mem_singleton.mp hqueued, hdoomed⟩ hnot

/-- **The canceller computes the least fixpoint.**  Over any jobs and dependencies, cycles and
soft edges included, the loop ends within as many rounds as there are jobs; a row is canceled
exactly when it was queued and a chain of hard dependencies leads from it, through queued jobs,
to one that was failed, dead-lettered or canceled, and every other row keeps its status; the
answer lists the canceled jobs; and no queued job is left behind a hard dependency that ended
without success. -/
theorem cancelDeadlockedJobsAtomic_least (clock : Clock) (db : Db) (fuel : ℕ)
    (hfuel : db.jobs.length < fuel) :
    ∃ result, cancelDeadlockedJobsAtomic clock fuel db none = some result ∧
      List.Forall₂ (fun job job' => job'.id = job.id ∧
        (job.status = .queued ∧ Doomed db job.id ∧ job'.status = .canceled ∨
          ¬ (job.status = .queued ∧ Doomed db job.id) ∧ job'.status = job.status))
        db.jobs result.db.jobs ∧
      (∀ id, id ∈ result.canceled.map Job.id ↔ HasStatus db [.queued] id ∧ Doomed db id) ∧
      result.db.dependencies = db.dependencies ∧
      ∀ job ∈ result.db.jobs, job.status = .queued →
        ∀ d, HardDependency result.db job.id d →
          ¬ HasStatus result.db deadlockTerminalStatuses d := by
  have hqueued : db.queuedCount < fuel := lt_of_le_of_lt List.countP_le_length hfuel
  obtain ⟨final, hfinal, hcanceling, hnone⟩ :=
    cancelDeadlockedPasses_ends clock { db := db } hqueued (Canceling.init db)
  have hrows := (hcanceling.final_rows hnone).imp fun job job' hrow =>
    show job'.id = job.id ∧
      (job.status = .queued ∧ Doomed db job.id ∧ job'.status = .canceled ∨
        ¬ (job.status = .queued ∧ Doomed db job.id) ∧ job'.status = job.status) from
    ⟨hrow.1, hrow.2.imp (fun h => ⟨h.1, h.2.1, h.2.2.1⟩) id⟩
  have hleft : ∀ job ∈ final.db.jobs, job.status = .queued →
      ∀ d, HardDependency final.db job.id d →
        ¬ HasStatus final.db deadlockTerminalStatuses d := by
    intro job hjob hstatus d hedge hended
    have hmem := mem_findDeadlockedJobs.mpr
      ⟨hjob, hstatus, hardDependencyFailed_iff.mpr ⟨d, hedge, hended⟩⟩
    rw [hnone] at hmem
    simp at hmem
  by_cases hprobe : findDeadlockedJobs db none = []
  · -- the plain read finds nothing, and so does the first round of the loop
    obtain ⟨fuel, rfl⟩ : ∃ n, fuel = n + 1 := ⟨fuel - 1, by omega⟩
    rw [cancelDeadlockedPasses, if_pos hprobe] at hfinal
    obtain rfl := Option.some.inj hfinal
    exact ⟨⟨db, [], []⟩, if_pos hprobe, hrows, fun id => hcanceling.mem_canceled hnone, rfl, hleft⟩
  · refine ⟨final.finish, ?_, ?_⟩
    · rw [cancelDeadlockedJobsAtomic, if_neg hprobe, hfinal]
      rfl
    · unfold DeadlockPass.finish
      dsimp only
      split
      · exact ⟨hrows, fun id => hcanceling.mem_canceled hnone, hcanceling.dependencies, hleft⟩
      · exact ⟨hrows, fun id => hcanceling.mem_canceled hnone, hcanceling.dependencies, hleft⟩

/-- A canceled job, two queued jobs behind it, and two queued jobs that wait for each other. -/
def deadlockedChain : Db :=
  { jobs := [⟨1, some 1, .dev, .canceled, none, none, none, none, none, none, none, 0, {}⟩,
      ⟨2, some 1, .dev, .queued, none, none, none, none, none, none, none, 0, {}⟩,
      ⟨3, some 2, .dev, .queued, none, none, none, none, none, none, none, 0, {}⟩,
      ⟨4, some 2, .dev, .queued, none, none, none, none, none, none, none, 0, {}⟩,
      ⟨5, some 2, .dev, .queued, none, none, none, none, none, none, none, 0, {}⟩]
    dependencies := [⟨3, 2, .hard⟩, ⟨2, 1, .hard⟩, ⟨4, 5, .hard⟩, ⟨5, 4, .hard⟩, ⟨4, 1, .soft⟩] }

theorem cancelDeadlockedJobsAtomic_least_chain :
    deadlockedChain.jobs.length < 6 ∧
    ∃ result, cancelDeadlockedJobsAtomic ⟨0, 0, 0⟩ 6 deadlockedChain none = some result ∧
      ∀ id, id ∈ result.canceled.map Job.id ↔
        HasStatus deadlockedChain [.queued] id ∧ Doomed deadlockedChain id := by
  refine ⟨by decide, ?_⟩
  obtain ⟨result, hresult, -, hcanceled, -⟩ :=
    cancelDeadlockedJobsAtomic_least ⟨0, 0, 0⟩ deadlockedChain 6 (by decide)
  exact ⟨result, hresult, hcanceled⟩

/-- The pair that waits for each other stays queued. -/
example : (cancelDeadlockedJobsAtomic ⟨0, 0, 0⟩ 6 deadlockedChain none).map
    (fun result => (result.canceled.map Job.id, result.db.jobs.map Job.status)) =
    some ([2, 3], [.canceled, .canceled, .canceled, .queued, .queued]) := by decide

end PosseClient
