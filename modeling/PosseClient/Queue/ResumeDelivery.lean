/-
# The resume of a human answer is delivered once

`requestParkedJobResumeAfterGate` writes the answer to an outbox, and the exits of a lease apply it
(`consumePendingHumanGateResume`).  An effect that waits belongs to a leased job as long as every
step that ends a lease looks into the outbox: `updateJobStatus` does not, nor does
`requeueExpiredLeases` for a completed plan or a warm job.

* `ResumesKept` says what a step does to the outbox and to the leases of the jobs with an effect that
  waits; one lemma for each function.
* The two transactions of `requeueExpiredLeases` are steps of their own, with the rows they have
  selected before.  An operation key names resume effects only; the text of a failed effect is left
  out.
* `ResumeOk` is the condition; `resume_stranded` is what happens without it.
-/
import PosseClient.Lib.Runs
import PosseClient.Lib.JsText
import PosseClient.Queue.LeaseFencing

namespace PosseClient

/-! ## 1. Requests -/

inductive ResumeAnswer
  | refused (reason : String)
  | failedBefore
  | settledBefore (requeued : Bool)
  | requeued
  | waitsForLease
deriving DecidableEq, Repr

/-- The insertion of an effect, which does nothing on a known key. -/
def insertHumanGateResume (db : Db) (effect : HumanGateResume) : Except DbError Db :=
  if db.humanGateOutbox.any (·.operationKey == effect.operationKey) then .ok db
  else if (db.getHumanGate effect.gateJobId).isNone then .error .foreignKey
  else .ok { db with humanGateOutbox := db.humanGateOutbox ++ [effect] }

/-- `settleHumanGateResumeEffects` on the one effect that was read. -/
def settleHumanGateResumeEffect (db : Db) (operationKey : String) (state : EffectState) : Db :=
  { db with
    humanGateOutbox := Table.updateWhere
      (fun effect => effect.operationKey == operationKey && effect.state == .pending)
      (fun effect => { effect with state := state }) db.humanGateOutbox }

/-- The end of a request whose effect waits. -/
def applyResumeRequest (db : Db) (jobId : ℕ) : Db × ResumeAnswer :=
  let consumed := consumePendingHumanGateResume db jobId
  let workItemId := (consumed.1.getJob jobId).bind Job.workItemId
  if consumed.2 then
    ((releaseJobLocksForStatus consumed.1 jobId .queued).notify
      { reason := .humanGateResumeQueued, jobId := some jobId, workItemId := workItemId },
      .requeued)
  else if consumed.1.humanGateOutbox.any (isPendingResume jobId) then
    (consumed.1.notify
      { reason := .humanGateResumePendingLeaseRelease, jobId := some jobId,
        workItemId := workItemId }, .waitsForLease)
  else (consumed.1, .refused "resume_not_applied")

/-- `requestParkedJobResumeAfterGate`. -/
def requestParkedJobResumeAfterGate (db : Db) (gateJobId originalJobId : ℕ)
    (operationKey : String) : Except DbError (Db × ResumeAnswer) :=
  let key := trim operationKey
  if key = "" then .ok (db, .refused "invalid_resume_request")
  else match db.getJob originalJobId with
    | none => .ok (db, .refused "original_job_missing")
    | some job =>
      match insertHumanGateResume db ⟨gateJobId, key, originalJobId, .pending⟩ with
      | .error e => .error e
      | .ok inserted =>
        match inserted.humanGateOutbox.find? (·.operationKey == key) with
        | none => .ok (inserted, .refused "resume_effect_missing")
        | some effect =>
          match effect.state with
          | .completed => .ok (inserted, .settledBefore (job.status == .queued))
          | .failed => .ok (inserted, .failedBefore)
          | _ =>
            if job.status ≠ .queued ∧ job.status ∉ humanGateResumableJobStatuses then
              .ok (settleHumanGateResumeEffect inserted key .failed,
                .refused "original_state_changed")
            else .ok (applyResumeRequest inserted originalJobId)

/-! ## 2. Steps -/

inductive ResumeOp
  | requestParkedJobResumeAfterGate (gateJobId originalJobId : ℕ) (operationKey : String)
  | consumePendingHumanGateResume (jobId : ℕ)
  | acquireLease (clock : Clock) (jobId : ℕ) (ownerId : String) (durationMs : ℤ)
  | renewLease (clock : Clock) (jobId leaseToken : ℕ) (durationMs : ℤ)
  | releaseLease (clock : Clock) (jobId leaseToken : ℕ) (finalStatus : JobStatus)
      (readyAt : Option ℤ)
  | clearExpiredParkedLeaseTokens (stale : List Job)
  | requeueExpiredLeases (clock : Clock) (completedPlan : ℕ → Bool) (expired : List Job)
  | updateJobStatus (clock : Clock) (jobId : ℕ) (status : JobStatus) (options : StatusOptions)

/-- One step of the callers. -/
def resumeStep (db : Db) : ResumeOp → Db
  | .requestParkedJobResumeAfterGate gateJobId originalJobId operationKey =>
    db.commit (requestParkedJobResumeAfterGate db gateJobId originalJobId operationKey)
  | .consumePendingHumanGateResume jobId => (consumePendingHumanGateResume db jobId).1
  | .acquireLease clock jobId ownerId durationMs => (acquireLease clock db jobId ownerId durationMs).1
  | .renewLease clock jobId leaseToken durationMs => (renewLease clock db jobId leaseToken durationMs).1
  | .releaseLease clock jobId leaseToken finalStatus readyAt =>
    (releaseLease clock db jobId leaseToken finalStatus readyAt).1
  | .clearExpiredParkedLeaseTokens stale => clearParkedLeases stale db
  | .requeueExpiredLeases clock completedPlan expired => requeueAll clock completedPlan expired db
  | .updateJobStatus clock jobId status options => (updateJobStatus clock db jobId status options).1

/-- The effect is completed or failed. -/
def HumanGateResume.IsSettled (effect : HumanGateResume) : Prop :=
  effect.state = .completed ∨ effect.state = .failed

/-- The job has an effect that waits. -/
def HasPendingResume (db : Db) (jobId : ℕ) : Prop :=
  ∃ effect ∈ db.humanGateOutbox, effect.state = .pending ∧ effect.originalJobId = jobId

/-- The job has a lease token. -/
def IsLeased (db : Db) (jobId : ℕ) : Prop :=
  ∃ job, db.getJob jobId = some job ∧ job.leaseToken ≠ none

/-- A status change that applies and ends a lease, and the settlement of an expired plan or warm
job, meet no effect that waits. -/
def ResumeOk (db : Db) : ResumeOp → Prop
  | .updateJobStatus _ jobId status options =>
    status ∉ leaseHoldingStatuses → Table.changes (statusUpdateApplies jobId options) db.jobs ≠ 0 →
      ¬ HasPendingResume db jobId
  | .requeueExpiredLeases clock completedPlan expired =>
    ∀ row ∈ expired, completedPlan row.id = true ∨ row.jobType = .atlasWarm →
      Table.changes (isExpiredRow clock row) db.jobs ≠ 0 → ¬ HasPendingResume db row.id
  | _ => True

/-! ## 3. What a step does to the outbox -/

/-- The effects keep their keys, an effect that does not wait stays as it is, one that is not settled
was there, and the jobs with an effect that waits stay leased, but for those in `ended`. -/
structure ResumesKept (ended : ℕ → Prop) (db db' : Db) : Prop where
  keys : db'.humanGateOutbox.map (·.operationKey) = db.humanGateOutbox.map (·.operationKey)
  settled : ∀ effect ∈ db.humanGateOutbox, effect.state ≠ .pending → effect ∈ db'.humanGateOutbox
  unsettled : ∀ effect ∈ db'.humanGateOutbox, ¬ effect.IsSettled → effect ∈ db.humanGateOutbox
  leased : ∀ jobId, HasPendingResume db' jobId → IsLeased db jobId → ¬ ended jobId →
    IsLeased db' jobId

/-- No lease of a job with an effect that waits has ended. -/
abbrev ResumesHeld : Db → Db → Prop := ResumesKept (fun _ => False)

section Kept

variable {ended : ℕ → Prop} {db db' db'' : Db} {jobId : ℕ}

theorem HumanGateResume.not_isSettled {effect : HumanGateResume} (h : effect.state = .pending) :
    ¬ effect.IsSettled := by
  simp [HumanGateResume.IsSettled, h]

theorem ResumesKept.hasPending (h : ResumesKept ended db db') (hp : HasPendingResume db' jobId) :
    HasPendingResume db jobId := by
  rcases hp with ⟨effect, hmem, hstate, hid⟩
  exact ⟨effect, h.unsettled effect hmem (HumanGateResume.not_isSettled hstate), hstate, hid⟩

/-- A step that writes neither the outbox nor a lease token. -/
theorem ResumesKept.of_same (houtbox : db'.humanGateOutbox = db.humanGateOutbox)
    (hleased : ∀ jobId, IsLeased db jobId → IsLeased db' jobId) : ResumesKept ended db db' where
  keys := by rw [houtbox]
  settled := fun _ h _ => houtbox ▸ h
  unsettled := fun _ h _ => houtbox ▸ h
  leased := fun jobId _ h _ => hleased jobId h

theorem ResumesKept.refl (db : Db) : ResumesKept ended db db :=
  ResumesKept.of_same rfl fun _ h => h

theorem ResumesKept.of_locksOnly (h : LocksOnly db db') : ResumesKept ended db db' := by
  refine ResumesKept.of_same h.humanGateOutbox ?_
  rintro jobId ⟨job, hjob, htoken⟩
  exact ⟨job, (h.getJob jobId).trans hjob, htoken⟩

theorem ResumesKept.trans (h : ResumesKept ended db db') (h' : ResumesKept ended db' db'') :
    ResumesKept ended db db'' where
  keys := h'.keys.trans h.keys
  settled := fun effect hmem hstate => h'.settled effect (h.settled effect hmem hstate) hstate
  unsettled := fun effect hmem hns => h.unsettled effect (h'.unsettled effect hmem hns) hns
  leased := fun jobId hp hl hended =>
    h'.leased jobId hp (h.leased jobId (h'.hasPending hp) hl hended) hended

/-- A lease may end for a job without an effect that waits afterwards. -/
theorem ResumesKept.held (h : ResumesKept (· = jobId) db db') (hp : ¬ HasPendingResume db' jobId) :
    ResumesHeld db db' := by
  refine ⟨h.keys, h.settled, h.unsettled, fun id hpid hl _ => ?_⟩
  refine h.leased id hpid hl ?_
  rintro rfl
  exact hp hpid

/-- An update of the rows of a job. -/
theorem resumesKept_updateJobs {p : Job → Bool} {f : Job → Job}
    (hp : ∀ job, p job = true → job.id = jobId) (hid : ∀ job, p job = true → (f job).id = job.id) :
    ResumesKept (· = jobId) db (db.updateJobs p f) := by
  refine ⟨rfl, fun _ h _ => h, fun _ h _ => h, ?_⟩
  rintro id - ⟨job, hjob, htoken⟩ hne
  refine ⟨job, ?_, htoken⟩
  rw [Db.getJob_updateJobs_of_ne hid fun other hother => hp other hother ▸ fun heq => hne heq.symm]
  exact hjob

/-- An update that ends no lease. -/
theorem resumesHeld_updateJobs {p : Job → Bool} {f : Job → Job}
    (hid : ∀ job, p job = true → (f job).id = job.id)
    (htoken : ∀ job, p job = true → job.leaseToken ≠ none → (f job).leaseToken ≠ none) :
    ResumesKept ended db (db.updateJobs p f) := by
  refine ResumesKept.of_same rfl ?_
  rintro id ⟨job, hjob, hheld⟩
  rw [IsLeased, Db.getJob_updateJobs hid, hjob]
  refine ⟨_, rfl, ?_⟩
  dsimp only
  split
  · next hjobp => exact htoken job hjobp hheld
  · exact hheld

/-- A settlement of effects that wait. -/
theorem resumesKept_settle {p : HumanGateResume → Bool} {state : EffectState}
    (hp : ∀ effect, p effect = true → effect.state = .pending)
    (hstate : state = .completed ∨ state = .failed) :
    ResumesKept ended db { db with
      humanGateOutbox := Table.updateWhere p (fun effect => { effect with state := state })
        db.humanGateOutbox } where
  keys := Table.map_key_updateWhere fun _ _ => rfl
  settled := by
    intro effect hmem hsettled
    refine Table.mem_updateWhere_of_not hmem ?_
    rw [Bool.eq_false_iff]
    exact fun htrue => hsettled (hp effect htrue)
  unsettled := by
    intro effect hmem hunsettled
    rcases Table.mem_updateWhere_cases hmem with
      ⟨hold, _⟩
    | ⟨before, _, _, rfl⟩
    · exact hold
    · exact absurd hstate hunsettled
  leased := fun _ _ h _ => h

theorem isPendingResume_iff {effect : HumanGateResume} : isPendingResume jobId effect = true ↔
    effect.state = .pending ∧ effect.originalJobId = jobId := by
  simp [isPendingResume]

theorem hasPendingResume_iff :
    HasPendingResume db jobId ↔ db.humanGateOutbox.any (isPendingResume jobId) = true := by
  simp [HasPendingResume, isPendingResume_iff]

end Kept

/-! ## 4. Consuming -/

section Consume

variable {ended : ℕ → Prop} {db : Db} {jobId : ℕ}

theorem resumesKept_settleHumanGateResumeEffects {state : EffectState}
    (hstate : state = .completed ∨ state = .failed) :
    ResumesKept ended db (settleHumanGateResumeEffects db jobId state) :=
  resumesKept_settle (fun _ h => (isPendingResume_iff.1 h).1) hstate

/-- After a settlement no effect of the job waits. -/
theorem not_hasPending_settle {state : EffectState}
    (hstate : state = .completed ∨ state = .failed) :
    ¬ HasPendingResume (settleHumanGateResumeEffects db jobId state) jobId := by
  rintro ⟨effect, hmem, hpending, hid⟩
  rcases Table.mem_updateWhere_cases hmem with
    ⟨_, hnot⟩
  | ⟨before, _, _, rfl⟩
  · rw [isPendingResume_iff.2 ⟨hpending, hid⟩] at hnot
    cases hnot
  · exact HumanGateResume.not_isSettled hpending hstate

theorem resumesHeld_consume :
    ResumesKept ended db (consumePendingHumanGateResume db jobId).1 := by
  unfold consumePendingHumanGateResume
  split
  · exact ResumesKept.refl db
  · split
    · exact resumesKept_settleHumanGateResumeEffects (by decide)
    · split_ifs with hqueued hresumable htoken
      · exact resumesKept_settleHumanGateResumeEffects (by decide)
      · exact ResumesKept.refl db
      · refine ResumesKept.trans ?_ (resumesKept_settleHumanGateResumeEffects (by decide))
        refine resumesHeld_updateJobs (fun _ _ => rfl) fun job hjob hheld => ?_
        simp only [Bool.and_eq_true, Option.isNone_iff_eq_none] at hjob
        exact absurd hjob.2 hheld
      · exact resumesKept_settleHumanGateResumeEffects (by decide)

/-- An effect is left waiting for a leased job only. -/
theorem leased_of_pending_consume
    (h : HasPendingResume (consumePendingHumanGateResume db jobId).1 jobId) :
    IsLeased db jobId := by
  unfold consumePendingHumanGateResume at h
  split at h
  · next hnone =>
    rw [hasPendingResume_iff, hnone] at h
    cases h
  · split at h
    · exact absurd h (not_hasPending_settle (by decide))
    · next job hjob =>
      split_ifs at h with hqueued hresumable htoken
      · exact absurd h (not_hasPending_settle (by decide))
      · exact ⟨job, hjob, Option.isSome_iff_ne_none.1 htoken⟩
      · exact absurd h (not_hasPending_settle (by decide))
      · exact absurd h (not_hasPending_settle (by decide))

/-- What ends the lease of a job and then consumes leaves no effect waiting. -/
theorem resumesHeld_end_consume {db' : Db} (h : ResumesKept (· = jobId) db db')
    (hended : ∀ job, db'.getJob jobId = some job → job.leaseToken = none) :
    ResumesHeld db (consumePendingHumanGateResume db' jobId).1 := by
  refine (h.trans resumesHeld_consume).held ?_
  intro hp
  rcases leased_of_pending_consume hp with ⟨job, hjob, htoken⟩
  exact htoken (hended job hjob)

/-- A job is moved to `queued` when it has no token and is parked, for an effect that waited. -/
theorem consume_moves {job job' : Job} (hjob : db.getJob jobId = some job)
    (hstatus : job.status ≠ .queued)
    (hjob' : (consumePendingHumanGateResume db jobId).1.getJob jobId = some job')
    (hmoved : job'.status = .queued) :
    (job.leaseToken = none ∧ job.status ∈ humanGateResumableJobStatuses) ∧
      HasPendingResume db jobId := by
  have hsame : db.getJob jobId = some job' → False := by
    intro h
    rw [hjob] at h
    exact hstatus ((Option.some.inj h) ▸ hmoved)
  unfold consumePendingHumanGateResume at hjob'
  split at hjob'
  · exact (hsame hjob').elim
  · next hpending =>
    rw [Bool.not_eq_false, ← hasPendingResume_iff] at hpending
    rw [hjob] at hjob'
    dsimp only at hjob'
    split_ifs at hjob' with hqueued hresumable htoken
    · exact (hsame hjob').elim
    · exact (hsame hjob').elim
    · exact ⟨⟨Option.not_isSome_iff_eq_none.1 htoken, hresumable⟩, hpending⟩
    · exact (hsame hjob').elim

end Consume

/-! ## 5. The steps that end a lease -/

/-- The job, if it exists, has no token. -/
def Unleased (db : Db) (jobId : ℕ) : Prop := ∀ job, db.getJob jobId = some job → job.leaseToken = none

section Ends

variable {ended : ℕ → Prop} {db db' : Db} {jobId : ℕ} {p : Job → Bool} {f : Job → Job}

theorem Unleased.of_getJob (h : Unleased db jobId) (heq : db'.getJob jobId = db.getJob jobId) :
    Unleased db' jobId :=
  fun job hjob => h job (heq ▸ hjob)

theorem Unleased.updateJobs (h : Unleased db jobId)
    (hid : ∀ job, p job = true → (f job).id = job.id)
    (hf : ∀ job, job.leaseToken = none → (f job).leaseToken = none) :
    Unleased (db.updateJobs p f) jobId := by
  intro job hjob
  rw [Db.getJob_updateJobs hid] at hjob
  rcases Option.map_eq_some_iff.1 hjob with ⟨before, hbefore, rfl⟩
  split
  · exact hf before (h before hbefore)
  · exact h before hbefore

theorem Unleased.consume (h : Unleased db jobId) :
    Unleased (consumePendingHumanGateResume db jobId).1 jobId := by
  unfold consumePendingHumanGateResume
  split
  · exact h
  · split
    · exact h
    · split_ifs
      · exact h
      · exact h
      · exact h.updateJobs (fun _ _ => rfl) fun _ _ => rfl
      · exact h

theorem Unleased.cancelUnusedReviewedTransfers (h : Unleased db jobId) :
    Unleased (cancelUnusedReviewedTransfers db jobId) jobId := by
  unfold PosseClient.cancelUnusedReviewedTransfers
  split
  · exact h
  · dsimp only
    split
    · exact h
    · split
      · exact h
      · refine Unleased.updateJobs ?_ (fun _ _ => rfl) fun _ ht => ht
        exact h.of_getJob ((locksOnly_returnTransfers db _ jobId _).getJob jobId)

/-- The row of the job is the one an update of its rows touches. -/
theorem applies_of_changes (hids : (db.jobs.map Job.id).Nodup)
    (hp : ∀ job, p job = true → job.id = jobId) (hchanges : Table.changes p db.jobs ≠ 0) {job : Job}
    (hjob : db.getJob jobId = some job) : p job = true := by
  rcases Table.changes_pos_iff.1 (Nat.pos_of_ne_zero hchanges) with ⟨row, hrow, hprow⟩
  have hsame : row = job := by
    refine Table.eq_of_key_eq hids hrow (Table.lookup_mem hjob) ?_
    rw [hp row hprow]
    exact (Table.lookup_key hjob).symm
  exact hsame ▸ hprow

/-- An update of the row of the job that clears its lease. -/
theorem unleased_updateJobs (hids : (db.jobs.map Job.id).Nodup)
    (hp : ∀ job, p job = true → job.id = jobId) (hid : ∀ job, p job = true → (f job).id = job.id)
    (hf : ∀ job, (f job).leaseToken = none) (hchanges : Table.changes p db.jobs ≠ 0) :
    Unleased (db.updateJobs p f) jobId := by
  intro job hjob
  rw [Db.getJob_updateJobs hid] at hjob
  rcases Option.map_eq_some_iff.1 hjob with ⟨before, hbefore, rfl⟩
  rw [if_pos (applies_of_changes hids hp hchanges hbefore)]
  exact hf before

theorem resumesKept_cancelUnusedReviewedTransfers :
    ResumesKept ended db (cancelUnusedReviewedTransfers db jobId) := by
  unfold cancelUnusedReviewedTransfers
  split
  · exact ResumesKept.refl db
  · dsimp only
    split
    · exact ResumesKept.refl db
    · split
      · exact ResumesKept.refl db
      · refine ResumesKept.trans ?_ (ResumesKept.of_locksOnly (locksOnly_notify _ _))
        refine ResumesKept.trans ?_ (resumesHeld_updateJobs (fun _ _ => rfl) fun _ _ ht => ht)
        exact ResumesKept.of_locksOnly (locksOnly_returnTransfers db _ jobId _)

theorem isLeasedBy_id {leaseToken : ℕ} {job : Job} (h : Job.isLeasedBy jobId leaseToken job = true) :
    job.id = jobId := by
  simp only [Job.isLeasedBy, Bool.and_eq_true, beq_iff_eq] at h
  exact h.1.1

theorem resumesHeld_releaseLease (hids : (db.jobs.map Job.id).Nodup) (clock : Clock)
    (leaseToken : ℕ) (finalStatus : JobStatus) (readyAt : Option ℤ) :
    ResumesHeld db (releaseLease clock db jobId leaseToken finalStatus readyAt).1 := by
  unfold releaseLease
  dsimp only
  split
  · exact ResumesKept.refl db
  · next hchanges =>
    refine ResumesKept.trans ?_ (ResumesKept.of_locksOnly (locksOnly_notify _ _))
    refine ResumesKept.trans ?_
      (ResumesKept.of_locksOnly (locksOnly_releaseJobLocksForStatus _ jobId _))
    have hkept : ResumesKept (· = jobId) db (db.updateJobs (Job.isLeasedBy jobId leaseToken)
        (Job.release clock finalStatus readyAt)) :=
      resumesKept_updateJobs (fun _ => isLeasedBy_id) fun _ _ => rfl
    have hfree : Unleased (db.updateJobs (Job.isLeasedBy jobId leaseToken)
        (Job.release clock finalStatus readyAt)) jobId :=
      unleased_updateJobs hids (fun _ => isLeasedBy_id) (fun _ _ => rfl) (fun _ => rfl) hchanges
    split
    · exact resumesHeld_end_consume (hkept.trans resumesKept_cancelUnusedReviewedTransfers)
        hfree.cancelUnusedReviewedTransfers
    · exact resumesHeld_end_consume hkept hfree

theorem resumesHeld_clearParkedLease (hids : (db.jobs.map Job.id).Nodup) (row : Job) :
    ResumesHeld db (clearParkedLease db row) := by
  unfold clearParkedLease
  split
  · exact ResumesKept.refl db
  · next hchanges =>
    have hcleared : ResumesHeld db (consumePendingHumanGateResume
        (db.updateJobs (isParkedRow row) Job.unlease) row.id).1 :=
      resumesHeld_end_consume (resumesKept_updateJobs (fun _ => isParkedRow_id) fun _ _ => rfl)
        (unleased_updateJobs hids (fun _ => isParkedRow_id) (fun _ _ => rfl) (fun _ => rfl)
          hchanges)
    dsimp only
    split
    · refine hcleared.trans (ResumesKept.of_locksOnly ?_)
      exact (locksOnly_releaseJobLocksForStatus _ row.id .queued).trans (locksOnly_notify _ _)
    · exact hcleared

theorem resumesHeld_clearParkedLeases (stale : List Job) (hids : (db.jobs.map Job.id).Nodup) :
    ResumesHeld db (clearParkedLeases stale db) := by
  unfold clearParkedLeases
  induction stale generalizing db with
  | nil => exact ResumesKept.refl db
  | cons row stale ih =>
    have hids' : ((clearParkedLease db row).jobs.map Job.id).Nodup :=
      (fenced_clearParkedLease db row).ids ▸ hids
    exact (resumesHeld_clearParkedLease hids row).trans (ih hids')

theorem resumesKept_markAssessOnly (wasAssessing : Bool) :
    ResumesKept ended db (markAssessOnly db jobId wasAssessing) := by
  unfold markAssessOnly
  split
  · exact resumesHeld_updateJobs (fun _ _ => rfl) fun _ _ ht => ht
  · exact ResumesKept.refl db

theorem Unleased.markAssessOnly (h : Unleased db jobId) (wasAssessing : Bool) :
    Unleased (markAssessOnly db jobId wasAssessing) jobId := by
  unfold PosseClient.markAssessOnly
  split
  · exact h.updateJobs (fun _ _ => rfl) fun _ ht => ht
  · exact h

/-- A selected job without an effect that waits is settled. -/
theorem settleExpired_held (hids : (db.jobs.map Job.id).Nodup) {clock : Clock} {row : Job}
    (status : JobStatus) (hid : ∀ job, (f job).id = job.id)
    (htoken : ∀ job, (f job).leaseToken = none)
    (hchanges : Table.changes (isExpiredRow clock row) db.jobs ≠ 0)
    (hnone : ¬ HasPendingResume db row.id) :
    ResumesHeld db
        (releaseJobLocksForStatus (db.updateJobs (isExpiredRow clock row) f) row.id status) ∧
      Unleased
        (releaseJobLocksForStatus (db.updateJobs (isExpiredRow clock row) f) row.id status)
        row.id := by
  have hlocks := locksOnly_releaseJobLocksForStatus (db.updateJobs (isExpiredRow clock row) f) row.id
    status
  have hkept : ResumesKept (· = row.id) db
      (releaseJobLocksForStatus (db.updateJobs (isExpiredRow clock row) f) row.id status) :=
    (resumesKept_updateJobs (fun _ => isExpiredRow_id) fun job _ => hid job).trans
      (ResumesKept.of_locksOnly hlocks)
  have hfree : Unleased (db.updateJobs (isExpiredRow clock row) f) row.id :=
    unleased_updateJobs hids (fun _ => isExpiredRow_id) (fun job _ => hid job) htoken hchanges
  exact ⟨hkept.held fun hp => hnone (hkept.hasPending hp), hfree.of_getJob (hlocks.getJob row.id)⟩

/-- One row of the sweep. -/
theorem requeueExpiredLease_held (hids : (db.jobs.map Job.id).Nodup) (clock : Clock)
    (completedPlan : ℕ → Bool) (row : Job)
    (hok : completedPlan row.id = true ∨ row.jobType = .atlasWarm →
      Table.changes (isExpiredRow clock row) db.jobs ≠ 0 → ¬ HasPendingResume db row.id) :
    ResumesHeld db (requeueExpiredLease clock completedPlan db row) ∧
      (Table.changes (isExpiredRow clock row) db.jobs ≠ 0 →
        Unleased (requeueExpiredLease clock completedPlan db row) row.id) := by
  unfold requeueExpiredLease
  dsimp only
  by_cases hchanges : Table.changes (isExpiredRow clock row) db.jobs = 0
  · rw [if_pos hchanges]
    exact ⟨ResumesKept.refl db, fun hne => absurd hchanges hne⟩
  · rw [if_neg hchanges]
    split
    · next hplan =>
      have hsettled := settleExpired_held hids .succeeded (f := fun j => { j.unlease with
        status := .succeeded, finishedAt := j.finishedAt.or (some clock.now) })
        (fun _ => rfl) (fun _ => rfl) hchanges (hok (Or.inl hplan) hchanges)
      exact ⟨hsettled.1, fun _ => hsettled.2⟩
    · split
      · next hwarm =>
        have hsettled := settleExpired_held hids .failed (f := fun j => { j.unlease with
          status := .failed, finishedAt := some clock.now })
          (fun _ => rfl) (fun _ => rfl) hchanges (hok (Or.inr hwarm) hchanges)
        exact ⟨hsettled.1, fun _ => hsettled.2⟩
      · have hid : ∀ job : Job, ({ job.requeue clock (refundsAttempt db job) with
            finishedAt := none } : Job).id = job.id := fun job => requeue_id clock _ job
        have hkept : ResumesKept (· = row.id) db (db.updateJobs (isExpiredRow clock row)
            (fun j => { j.requeue clock (refundsAttempt db j) with finishedAt := none })) :=
          resumesKept_updateJobs (fun _ => isExpiredRow_id) fun job _ => hid job
        have hfree : Unleased (db.updateJobs (isExpiredRow clock row)
            (fun j => { j.requeue clock (refundsAttempt db j) with finishedAt := none })) row.id :=
          unleased_updateJobs hids (fun _ => isExpiredRow_id) (fun job _ => hid job)
            (fun job => requeue_leaseToken clock _ job) hchanges
        have hlocks := fun d : Db => locksOnly_releaseJobLocksForStatus d row.id .queued
        refine ⟨?_, fun _ => ?_⟩
        · refine ResumesKept.trans ?_ (resumesKept_markAssessOnly _)
          exact (resumesHeld_end_consume hkept hfree).trans (ResumesKept.of_locksOnly (hlocks _))
        · exact (hfree.consume.of_getJob ((hlocks _).getJob row.id)).markAssessOnly _

end Ends

/-! ## 6. The steps -/

section Steps

variable {ended : ℕ → Prop} {db db' : Db} {jobId : ℕ}

/-- A row that still matches after a row of the sweep has matched before it. -/
theorem changes_of_requeueExpiredLease (hids : (db.jobs.map Job.id).Nodup) {clock : Clock}
    {completedPlan : ℕ → Bool} {row other : Job}
    (hfree : Table.changes (isExpiredRow clock row) db.jobs ≠ 0 →
      Unleased (requeueExpiredLease clock completedPlan db row) row.id)
    (hchanges : Table.changes (isExpiredRow clock other)
      (requeueExpiredLease clock completedPlan db row).jobs ≠ 0) :
    Table.changes (isExpiredRow clock other) db.jobs ≠ 0 := by
  have hids' : ((requeueExpiredLease clock completedPlan db row).jobs.map Job.id).Nodup :=
    (fenced_requeueExpiredLease clock completedPlan db row).ids ▸ hids
  rcases Table.changes_pos_iff.1 (Nat.pos_of_ne_zero hchanges) with ⟨job, hjob, hmatch⟩
  have hid : job.id = other.id := isExpiredRow_id hmatch
  have hget : (requeueExpiredLease clock completedPlan db row).getJob other.id = some job := by
    rw [← hid]
    exact Table.lookup_of_mem hids' hjob
  by_cases hsame : row.id = other.id
  · by_cases hrow : Table.changes (isExpiredRow clock row) db.jobs = 0
    · rwa [show requeueExpiredLease clock completedPlan db row = db by
        simp [requeueExpiredLease, hrow]] at hchanges
    · -- the row has just lost its token
      have hnone : job.leaseToken = none := hfree hrow job (hsame ▸ hget)
      simp only [isExpiredRow, hnone, Bool.and_eq_true, beq_iff_eq] at hmatch
      rw [← hmatch.1.2] at hmatch
      simp at hmatch
  · rw [getJob_requeueExpiredLease_of_ne clock completedPlan db hsame] at hget
    exact (Table.changes_pos_iff.2 ⟨job, Table.lookup_mem hget, hmatch⟩).ne'

theorem resumesHeld_requeueAll (clock : Clock) (completedPlan : ℕ → Bool) (expired : List Job)
    (hids : (db.jobs.map Job.id).Nodup)
    (hok : ∀ row ∈ expired, completedPlan row.id = true ∨ row.jobType = .atlasWarm →
      Table.changes (isExpiredRow clock row) db.jobs ≠ 0 → ¬ HasPendingResume db row.id) :
    ResumesHeld db (requeueAll clock completedPlan expired db) := by
  have hfold : ResumesHeld db (expired.foldl (requeueExpiredLease clock completedPlan) db) := by
    induction expired generalizing db with
    | nil => exact ResumesKept.refl db
    | cons row expired ih =>
      rcases requeueExpiredLease_held hids clock completedPlan row (hok row List.mem_cons_self) with
        ⟨hheld, hfree⟩
      have hids' : ((requeueExpiredLease clock completedPlan db row).jobs.map Job.id).Nodup :=
        (fenced_requeueExpiredLease clock completedPlan db row).ids ▸ hids
      refine hheld.trans (ih hids' fun other hother hkind hchanges hp => ?_)
      exact hok other (List.mem_cons_of_mem row hother) hkind
        (changes_of_requeueExpiredLease hids hfree hchanges) (hheld.hasPending hp)
  unfold requeueAll
  dsimp only
  split
  · exact hfold.trans (ResumesKept.of_locksOnly (locksOnly_notify _ _))
  · exact hfold

theorem resumesKept_settleGateOfJob (status : JobStatus) :
    ResumesKept ended db (settleGateOfJob db jobId status) := by
  unfold settleGateOfJob
  dsimp only
  split
  · exact ResumesKept.of_same rfl fun _ h => h
  · exact ResumesKept.of_same rfl fun _ h => h
  · exact ResumesKept.refl db

theorem statusUpdateApplies_id {options : StatusOptions} {job : Job}
    (h : statusUpdateApplies jobId options job = true) : job.id = jobId := by
  simp only [statusUpdateApplies, Bool.and_eq_true, beq_iff_eq] at h
  exact h.1.1

theorem resumesHeld_updateJobStatus (clock : Clock) (status : JobStatus) (options : StatusOptions)
    (hok : status ∉ leaseHoldingStatuses →
      Table.changes (statusUpdateApplies jobId options) db.jobs ≠ 0 → ¬ HasPendingResume db jobId) :
    ResumesHeld db (updateJobStatus clock db jobId status options).1 := by
  unfold updateJobStatus
  dsimp only
  split
  · exact ResumesKept.refl db
  · next hchanges =>
    have hupdated : ResumesHeld db
        (db.updateJobs (statusUpdateApplies jobId options) (Job.setStatus clock status)) := by
      by_cases hholding : status ∈ leaseHoldingStatuses
      · refine resumesHeld_updateJobs (fun job _ => setStatus_id clock status job) fun job _ ht => ?_
        simpa [Job.setStatus, hholding] using ht
      · have hkept : ResumesKept (· = jobId) db
            (db.updateJobs (statusUpdateApplies jobId options) (Job.setStatus clock status)) :=
          resumesKept_updateJobs (fun _ => statusUpdateApplies_id)
            fun job _ => setStatus_id clock status job
        exact hkept.held fun hp => hok hholding hchanges (hkept.hasPending hp)
    refine hupdated.trans ?_
    refine ResumesKept.trans ?_ (ResumesKept.of_locksOnly (locksOnly_notify _ _))
    refine ResumesKept.trans ?_
      (ResumesKept.of_locksOnly (locksOnly_releaseJobLocksForStatus _ jobId status))
    split
    · refine ResumesKept.trans ?_ resumesKept_cancelUnusedReviewedTransfers
      split
      · exact resumesKept_settleGateOfJob status
      · exact ResumesKept.refl _
    · split
      · exact resumesKept_settleGateOfJob status
      · exact ResumesKept.refl _

theorem resumesHeld_acquireLease (clock : Clock) (ownerId : String) (durationMs : ℤ) :
    ResumesKept ended db (acquireLease clock db jobId ownerId durationMs).1 := by
  unfold acquireLease
  dsimp only
  split
  · exact ResumesKept.refl db
  · refine ResumesKept.trans (resumesHeld_updateJobs
      (f := fun job => job.lease ownerId db.nextToken (clock.leaseNow + durationMs))
      (fun _ _ => rfl) fun _ _ _ => ?_) (ResumesKept.of_same rfl fun _ h => h)
    exact Option.some_ne_none db.nextToken

theorem resumesHeld_renewLease (clock : Clock) (leaseToken : ℕ) (durationMs : ℤ) :
    ResumesKept ended db (renewLease clock db jobId leaseToken durationMs).1 :=
  resumesHeld_updateJobs (fun _ _ => rfl) fun _ _ ht => ht

end Steps

/-! ## 7. Requests -/

/-- The keys are those of different effects, every effect is settled or waits, and a job with an
effect that waits is leased. -/
structure ResumesSound (db : Db) : Prop where
  ids : (db.jobs.map Job.id).Nodup
  keys : (db.humanGateOutbox.map (·.operationKey)).Nodup
  states : ∀ effect ∈ db.humanGateOutbox, effect.IsSettled ∨ effect.state = .pending
  held : ∀ jobId, HasPendingResume db jobId → IsLeased db jobId

section Requests

variable {db db' : Db} {gateJobId jobId : ℕ} {operationKey : String}

theorem ResumesSound.of_held (h : ResumesSound db) (hkept : ResumesHeld db db')
    (hids : db'.jobs.map Job.id = db.jobs.map Job.id) : ResumesSound db' where
  ids := hids ▸ h.ids
  keys := hkept.keys ▸ h.keys
  states := by
    intro effect hmem
    by_cases hsettled : effect.IsSettled
    · exact Or.inl hsettled
    · exact h.states effect (hkept.unsettled effect hmem hsettled)
  held := fun jobId hp =>
    hkept.leased jobId hp (h.held jobId (hkept.hasPending hp)) fun hfalse => hfalse

/-- The insertion of a new effect: the database it leaves, and the effect with the key. -/
structure Inserted (db db' : Db) (effect : HumanGateResume) : Prop where
  jobs : db'.jobs = db.jobs
  outbox : db'.humanGateOutbox = db.humanGateOutbox ++ [effect]
  fresh : ∀ e ∈ db.humanGateOutbox, e.operationKey ≠ effect.operationKey

theorem insertHumanGateResume_cases {effect : HumanGateResume}
    (h : insertHumanGateResume db effect = .ok db') :
    (db' = db ∧ ∃ e ∈ db.humanGateOutbox, e.operationKey = effect.operationKey) ∨
      Inserted db db' effect := by
  unfold insertHumanGateResume at h
  split_ifs at h with hknown
  · left
    rcases List.any_eq_true.1 hknown with ⟨e, he, hkey⟩
    exact ⟨(Except.ok.inj h).symm, e, he, by simpa using hkey⟩
  · right
    obtain rfl := Except.ok.inj h
    refine ⟨rfl, rfl, fun e he hkey => hknown (List.any_eq_true.2 ⟨e, he, ?_⟩)⟩
    simpa using hkey

theorem Inserted.getJob {effect : HumanGateResume} (h : Inserted db db' effect) (id : ℕ) :
    db'.getJob id = db.getJob id := by
  unfold Db.getJob
  rw [h.jobs]

theorem Inserted.hasPending {effect : HumanGateResume} (h : Inserted db db' effect) {id : ℕ}
    (hp : HasPendingResume db' id) : HasPendingResume db id ∨ id = effect.originalJobId := by
  rcases hp with ⟨e, he, hstate, hid⟩
  rw [h.outbox] at he
  rcases List.mem_append.1 he with
    hold
  | hnew
  · exact Or.inl ⟨e, hold, hstate, hid⟩
  · rw [List.mem_singleton.1 hnew] at hid
    exact Or.inr hid.symm

/-- The sound state after an insertion, but for the lease of the job of the new effect. -/
theorem Inserted.keys_states {effect : HumanGateResume} (h : Inserted db db' effect)
    (hs : ResumesSound db) (hstate : effect.state = .pending) :
    (db'.humanGateOutbox.map (·.operationKey)).Nodup ∧
      ∀ e ∈ db'.humanGateOutbox, e.IsSettled ∨ e.state = .pending := by
  rw [h.outbox]
  constructor
  · rw [List.map_append, List.nodup_append]
    refine ⟨hs.keys, by simp, ?_⟩
    intro key hkey other hother
    rcases List.mem_map.1 hkey with ⟨e, he, rfl⟩
    rw [show other = effect.operationKey by simpa using hother]
    exact h.fresh e he
  · intro e he
    rcases List.mem_append.1 he with
      hold
    | hnew
    · exact hs.states e hold
    · rw [List.mem_singleton.1 hnew]
      exact Or.inr hstate

/-- What a request does: nothing, or the settlement of its effect, or what follows from consuming,
after the insertion of its effect or without it. -/
inductive RequestChange (db : Db) (jobId : ℕ) (key : String) : Db → Prop
  | nothing : RequestChange db jobId key db
  | settled {inserted : Db} (job : Job) (hjob : db.getJob jobId = some job)
      (hinserted : inserted = db ∨ ∃ gateJobId,
        Inserted db inserted ⟨gateJobId, key, jobId, .pending⟩) :
      RequestChange db jobId key (settleHumanGateResumeEffect inserted key .failed)
  | applied {inserted : Db} (job : Job) (hjob : db.getJob jobId = some job)
      (hinserted : inserted = db ∨ ∃ gateJobId,
        Inserted db inserted ⟨gateJobId, key, jobId, .pending⟩) :
      RequestChange db jobId key (applyResumeRequest inserted jobId).1

theorem request_change :
    RequestChange db jobId (trim operationKey)
      (db.commit (requestParkedJobResumeAfterGate db gateJobId jobId operationKey)) := by
  unfold requestParkedJobResumeAfterGate
  dsimp only
  split
  · exact .nothing
  · cases hjob : db.getJob jobId with
    | none => exact .nothing
    | some job =>
      dsimp only
      cases hins : insertHumanGateResume db ⟨gateJobId, trim operationKey, jobId, .pending⟩ with
      | error e => exact .nothing
      | ok inserted =>
        dsimp only
        rcases insertHumanGateResume_cases hins with
          ⟨rfl, _⟩
        | hnew
        · -- a known key: nothing was inserted
          split
          · exact .nothing
          · split
            · exact .nothing
            · exact .nothing
            · split
              · exact .settled job hjob (Or.inl rfl)
              · exact .applied job hjob (Or.inl rfl)
        · have hfind : inserted.humanGateOutbox.find? (·.operationKey == trim operationKey) =
              some ⟨gateJobId, trim operationKey, jobId, .pending⟩ := by
            rw [hnew.outbox, List.find?_append, List.find?_eq_none.2 ?_]
            · simp
            · intro e he
              simpa using hnew.fresh e he
          rw [hfind]
          dsimp only
          split
          · exact .settled job hjob (Or.inr ⟨gateJobId, hnew⟩)
          · exact .applied job hjob (Or.inr ⟨gateJobId, hnew⟩)

/-- The locks and wakes apart, a request ends with the consumption. -/
theorem locksOnly_applyResumeRequest :
    LocksOnly (consumePendingHumanGateResume db jobId).1 (applyResumeRequest db jobId).1 := by
  unfold applyResumeRequest
  dsimp only
  split
  · exact (locksOnly_releaseJobLocksForStatus _ jobId .queued).trans (locksOnly_notify _ _)
  · split
    · exact locksOnly_notify _ _
    · exact LocksOnly.refl _

theorem resumesHeld_applyResumeRequest : ResumesHeld db (applyResumeRequest db jobId).1 := by
  have hconsumed : ResumesHeld db (consumePendingHumanGateResume db jobId).1 := resumesHeld_consume
  exact hconsumed.trans (ResumesKept.of_locksOnly locksOnly_applyResumeRequest)

theorem fenced_applyResumeRequest : Fenced db (applyResumeRequest db jobId).1 :=
  (fenced_consumePendingHumanGateResume db jobId).trans
    (Fenced.of_locksOnly locksOnly_applyResumeRequest)

theorem resumesKept_settleHumanGateResumeEffect {ended : ℕ → Prop} :
    ResumesKept ended db (settleHumanGateResumeEffect db operationKey .failed) := by
  refine resumesKept_settle (fun effect h => ?_) (Or.inr rfl)
  simp only [Bool.and_eq_true, beq_iff_eq] at h
  exact h.2

/-- The effect with the key does not wait after its settlement. -/
theorem not_pending_settleHumanGateResumeEffect {effect : HumanGateResume}
    (hmem : effect ∈ (settleHumanGateResumeEffect db operationKey .failed).humanGateOutbox)
    (hpending : effect.state = .pending) : effect.operationKey ≠ operationKey := by
  intro hkey
  rcases Table.mem_updateWhere_cases hmem with
    ⟨_, hnot⟩
  | ⟨before, _, _, rfl⟩
  · simp [hkey, hpending] at hnot
  · cases hpending

/-- After an insertion, what keeps the leases of all jobs with an effect that waits, and leaves the new
effect waiting for a leased job only. -/
theorem Inserted.sound {effect : HumanGateResume} {inserted : Db}
    (h : Inserted db inserted effect) (hstate : effect.state = .pending) (hs : ResumesSound db)
    (hkept : ResumesHeld inserted db') (hids : db'.jobs.map Job.id = inserted.jobs.map Job.id)
    (hself : HasPendingResume db' effect.originalJobId →
      IsLeased inserted effect.originalJobId) :
    ResumesSound db' ∧
      ∀ e ∈ db.humanGateOutbox, e.state ≠ .pending → e ∈ db'.humanGateOutbox := by
  have hleased : ∀ id, IsLeased db id → IsLeased inserted id := by
    rintro id ⟨job, hjob, htoken⟩
    exact ⟨job, (h.getJob id).trans hjob, htoken⟩
  rcases h.keys_states hs hstate with ⟨hkeys, hstates⟩
  have hmem : ∀ e ∈ db.humanGateOutbox, e ∈ inserted.humanGateOutbox := fun e he => by
    rw [h.outbox]
    exact List.mem_append_left _ he
  refine ⟨⟨?_, ?_, ?_, ?_⟩, fun e he hne => hkept.settled e (hmem e he) hne⟩
  · rw [hids, h.jobs]
    exact hs.ids
  · rw [hkept.keys]
    exact hkeys
  · intro e he
    by_cases hsettled : e.IsSettled
    · exact Or.inl hsettled
    · exact hstates e (hkept.unsettled e he hsettled)
  · intro id hp
    have hbefore : IsLeased inserted id := by
      rcases h.hasPending (hkept.hasPending hp) with
        hold
      | rfl
      · exact hleased id (hs.held id hold)
      · exact hself hp
    exact hkept.leased id hp hbefore fun hfalse => hfalse

/-- A request keeps the state sound, and what does not wait as it is. -/
theorem RequestChange.sound {key : String} (h : RequestChange db jobId key db')
    (hs : ResumesSound db) :
    ResumesSound db' ∧
      ∀ effect ∈ db.humanGateOutbox, effect.state ≠ .pending → effect ∈ db'.humanGateOutbox := by
  cases h with
  | nothing => exact ⟨hs, fun _ hmem _ => hmem⟩
  | @settled inserted job hjob hinserted =>
    have hkept : ResumesHeld inserted (settleHumanGateResumeEffect inserted key .failed) :=
      resumesKept_settleHumanGateResumeEffect
    rcases hinserted with
      rfl
    | ⟨gateJobId, hnew⟩
    · exact ⟨hs.of_held hkept rfl, hkept.settled⟩
    · refine hnew.sound rfl hs hkept rfl ?_
      rintro ⟨e, he, hpending, hid⟩
      have hother : e.operationKey ≠ key := not_pending_settleHumanGateResumeEffect he hpending
      have hinserted := hkept.unsettled e he (HumanGateResume.not_isSettled hpending)
      rw [hnew.outbox] at hinserted
      rcases List.mem_append.1 hinserted with
        hold
      | hlast
      · rcases hs.held jobId ⟨e, hold, hpending, hid⟩ with ⟨held, hheld, htoken⟩
        exact ⟨held, (hnew.getJob jobId).trans hheld, htoken⟩
      · exact absurd (congrArg HumanGateResume.operationKey (List.mem_singleton.1 hlast)) hother
  | @applied inserted job hjob hinserted =>
    rcases hinserted with
      rfl
    | ⟨gateJobId, hnew⟩
    · exact ⟨hs.of_held resumesHeld_applyResumeRequest fenced_applyResumeRequest.ids,
        resumesHeld_applyResumeRequest.settled⟩
    · refine hnew.sound rfl hs resumesHeld_applyResumeRequest fenced_applyResumeRequest.ids ?_
      rintro ⟨e, he, hpending, hid⟩
      rw [locksOnly_applyResumeRequest.humanGateOutbox] at he
      exact leased_of_pending_consume ⟨e, he, hpending, hid⟩

/-- A request that moves its job to `queued` found it parked without a token, and has settled its
effect. -/
theorem RequestChange.moves {key : String} (h : RequestChange db jobId key db')
    (hs : ResumesSound db) {job job' : Job} (hjob : db.getJob jobId = some job)
    (hstatus : job.status ≠ .queued) (hjob' : db'.getJob jobId = some job')
    (hmoved : job'.status = .queued) :
    (job.leaseToken = none ∧ job.status ∈ humanGateResumableJobStatuses) ∧
      ∃ effect ∈ db'.humanGateOutbox, effect.operationKey = key ∧ effect.IsSettled := by
  have hsound : ResumesSound db' := (h.sound hs).1
  have hsame : ∀ d : Db, d.getJob jobId = db.getJob jobId → d.getJob jobId = some job' → False := by
    intro d heq hd
    rw [heq, hjob] at hd
    exact hstatus ((Option.some.inj hd) ▸ hmoved)
  cases h with
  | nothing => exact (hsame db rfl hjob').elim
  | @settled inserted _ _ hinserted =>
    rcases hinserted with
      rfl
    | ⟨gateJobId, hnew⟩
    · exact (hsame inserted rfl hjob').elim
    · exact (hsame inserted (hnew.getJob jobId) hjob').elim
  | @applied inserted _ _ hinserted =>
    rw [locksOnly_applyResumeRequest.getJob jobId] at hjob'
    rcases hinserted with
      rfl
    | ⟨gateJobId, hnew⟩
    · -- the effects that waited are those of a leased job
      rcases consume_moves hjob hstatus hjob' hmoved with ⟨⟨hnone, _⟩, hpending⟩
      rcases hs.held jobId hpending with ⟨held, hheld, htoken⟩
      rw [hjob] at hheld
      exact absurd ((Option.some.inj hheld) ▸ hnone) htoken
    · have hbefore : inserted.getJob jobId = some job := (hnew.getJob jobId).trans hjob
      rcases consume_moves hbefore hstatus hjob' hmoved with ⟨hparked, _⟩
      refine ⟨hparked, ?_⟩
      have hkept : ResumesHeld inserted (applyResumeRequest inserted jobId).1 :=
        resumesHeld_applyResumeRequest
      have hkey : key ∈ (applyResumeRequest inserted jobId).1.humanGateOutbox.map
          (·.operationKey) := by
        rw [hkept.keys, hnew.outbox]
        simp
      rcases List.mem_map.1 hkey with ⟨effect, hmem, heq⟩
      refine ⟨effect, hmem, heq, ?_⟩
      rcases hsound.states effect hmem with
        hsettled
      | hpending
      · exact hsettled
      · -- it would be the new effect, and its job leased
        have hinserted := hkept.unsettled effect hmem (HumanGateResume.not_isSettled hpending)
        rw [hnew.outbox] at hinserted
        rcases List.mem_append.1 hinserted with
          hold
        | hlast
        · exact absurd heq (hnew.fresh effect hold)
        · have hid : effect.originalJobId = jobId := by rw [List.mem_singleton.1 hlast]
          rw [locksOnly_applyResumeRequest.humanGateOutbox] at hmem
          rcases leased_of_pending_consume ⟨effect, hmem, hpending, hid⟩ with
            ⟨held, hheld, htoken⟩
          rw [hbefore] at hheld
          exact absurd ((Option.some.inj hheld) ▸ hparked.1) htoken

/-- A request with the key of a settled effect does nothing. -/
theorem request_settled (hs : ResumesSound db) {effect : HumanGateResume}
    (hmem : effect ∈ db.humanGateOutbox) (hsettled : effect.IsSettled)
    (hkey : trim operationKey = effect.operationKey) :
    db.commit (requestParkedJobResumeAfterGate db gateJobId jobId operationKey) = db := by
  unfold requestParkedJobResumeAfterGate
  dsimp only
  split
  · rfl
  · cases db.getJob jobId with
    | none => rfl
    | some job =>
      have hknown : db.humanGateOutbox.any (·.operationKey == trim operationKey) = true :=
        List.any_eq_true.2 ⟨effect, hmem, by simp [hkey]⟩
      have hfind : db.humanGateOutbox.find? (·.operationKey == trim operationKey) = some effect := by
        have hlookup : Table.lookup HumanGateResume.operationKey effect.operationKey
            db.humanGateOutbox = some effect := Table.lookup_of_mem hs.keys hmem
        rw [hkey]
        exact hlookup
      dsimp only
      rw [insertHumanGateResume, if_pos hknown]
      dsimp only
      rw [hfind]
      rcases hsettled with
        hcompleted
      | hfailed
      · simp [hcompleted]
      · simp [hfailed]

end Requests

/-! ## 8. Runs -/

section Runs

variable {db : Db}

/-- What every admitted step keeps. -/
theorem resumeStep_sound (hs : ResumesSound db) (op : ResumeOp) (hok : ResumeOk db op) :
    ResumesSound (resumeStep db op) ∧
      ∀ effect ∈ db.humanGateOutbox, effect.state ≠ .pending →
        effect ∈ (resumeStep db op).humanGateOutbox := by
  have hof : ∀ {db' : Db}, ResumesHeld db db' → Fenced db db' → ResumesSound db' ∧
      ∀ effect ∈ db.humanGateOutbox, effect.state ≠ .pending → effect ∈ db'.humanGateOutbox :=
    fun hkept hfenced => ⟨hs.of_held hkept hfenced.ids, hkept.settled⟩
  cases op with
  | requestParkedJobResumeAfterGate gateJobId originalJobId operationKey =>
    exact request_change.sound hs
  | consumePendingHumanGateResume jobId =>
    exact hof resumesHeld_consume (fenced_consumePendingHumanGateResume db jobId)
  | acquireLease clock jobId ownerId durationMs =>
    exact hof (resumesHeld_acquireLease clock ownerId durationMs)
      (fenced_acquireLease clock db jobId ownerId durationMs)
  | renewLease clock jobId leaseToken durationMs =>
    exact hof (resumesHeld_renewLease clock leaseToken durationMs)
      (fenced_renewLease clock db jobId leaseToken durationMs)
  | releaseLease clock jobId leaseToken finalStatus readyAt =>
    exact hof (resumesHeld_releaseLease hs.ids clock leaseToken finalStatus readyAt)
      (fenced_releaseLease clock db jobId leaseToken finalStatus readyAt)
  | clearExpiredParkedLeaseTokens stale =>
    exact hof (resumesHeld_clearParkedLeases stale hs.ids) (fenced_clearParkedLeases stale db)
  | requeueExpiredLeases clock completedPlan expired =>
    exact hof (resumesHeld_requeueAll clock completedPlan expired hs.ids hok)
      (fenced_requeueAll clock completedPlan expired db)
  | updateJobStatus clock jobId status options =>
    exact hof (resumesHeld_updateJobStatus clock status options hok)
      (fenced_updateJobStatus clock db jobId status options)

theorem ResumesSound.run (hs : ResumesSound db) {ops : List ResumeOp}
    (hm : Runs.Meets resumeStep ResumeOk db ops) : ResumesSound (Runs.run resumeStep db ops) := by
  have hstep : ∀ d op, ResumesSound d → ResumeOk d op → ResumesSound (resumeStep d op) :=
    fun d op hd hok => (resumeStep_sound hd op hok).1
  exact Runs.run_invariant hstep hs hm

theorem settled_run (hs : ResumesSound db) {ops : List ResumeOp}
    (hm : Runs.Meets resumeStep ResumeOk db ops) : ∀ effect ∈ db.humanGateOutbox,
      effect.state ≠ .pending → effect ∈ (Runs.run resumeStep db ops).humanGateOutbox := by
  have hinv : ∀ d op, ResumesSound d → ResumeOk d op → ResumesSound (resumeStep d op) :=
    fun d op hd hok => (resumeStep_sound hd op hok).1
  have hstep : ∀ d op, ResumesSound d → ResumeOk d op → ∀ effect ∈ d.humanGateOutbox,
      effect.state ≠ .pending → effect ∈ (resumeStep d op).humanGateOutbox :=
    fun d op hd hok => (resumeStep_sound hd op hok).2
  exact Runs.run_rel
    (R := fun d d' : Db => ∀ effect ∈ d.humanGateOutbox, effect.state ≠ EffectState.pending →
      effect ∈ d'.humanGateOutbox)
    (fun _ _ hmem _ => hmem)
    (fun _ _ _ h h' effect hmem hne => h' effect (h effect hmem hne) hne) hinv hstep hs hm

end Runs

/-- **A human answer resumes its job once.**  In every run that meets the condition: an effect that
does not wait stays as it is, and keys name one effect; effects move a job to `queued` only from a
parked status without a lease token; a request that moves its job has settled its effect; a request
with the key of a settled effect does nothing; and an effect waits for a job that has a lease
token. -/
theorem resume_delivered_once {db : Db} (hids : (db.jobs.map Job.id).Nodup)
    (hempty : db.humanGateOutbox = []) (earlier later : List ResumeOp)
    (hm : Runs.Meets resumeStep ResumeOk db (earlier ++ later)) :
    let held := Runs.run resumeStep db earlier
    let reached := Runs.run resumeStep held later
    (∀ effect ∈ held.humanGateOutbox, effect.state ≠ .pending → effect ∈ reached.humanGateOutbox) ∧
    (reached.humanGateOutbox.map (·.operationKey)).Nodup ∧
    (∀ (d : Db) jobId job job', d.getJob jobId = some job → job.status ≠ .queued →
      (consumePendingHumanGateResume d jobId).1.getJob jobId = some job' →
      job'.status = .queued →
      job.leaseToken = none ∧ job.status ∈ humanGateResumableJobStatuses) ∧
    (∀ gateJobId jobId operationKey job job', reached.getJob jobId = some job →
      job.status ≠ .queued →
      (resumeStep reached (.requestParkedJobResumeAfterGate gateJobId jobId operationKey)).getJob
        jobId = some job' → job'.status = .queued →
      (job.leaseToken = none ∧ job.status ∈ humanGateResumableJobStatuses) ∧
        ∃ effect ∈ (resumeStep reached
          (.requestParkedJobResumeAfterGate gateJobId jobId operationKey)).humanGateOutbox,
          effect.operationKey = trim operationKey ∧ effect.IsSettled) ∧
    (∀ effect ∈ held.humanGateOutbox, effect.IsSettled → ∀ gateJobId jobId operationKey,
      trim operationKey = effect.operationKey →
      resumeStep reached (.requestParkedJobResumeAfterGate gateJobId jobId operationKey) =
        reached) ∧
    ∀ jobId, HasPendingResume reached jobId → IsLeased reached jobId := by
  dsimp only
  have hinit : ResumesSound db := by
    refine ⟨hids, by simp [hempty], by simp [hempty], ?_⟩
    rintro jobId ⟨effect, hmem, _⟩
    simp [hempty] at hmem
  rw [Runs.meets_append] at hm
  have hheld : ResumesSound (Runs.run resumeStep db earlier) := hinit.run hm.1
  have hreached := hheld.run hm.2
  have hkept := settled_run hheld hm.2
  refine ⟨hkept, hreached.keys, ?_, ?_, ?_, hreached.held⟩
  · intro d jobId job job' hjob hstatus hjob' hmoved
    exact (consume_moves hjob hstatus hjob' hmoved).1
  · intro gateJobId jobId operationKey job job' hjob hstatus hjob' hmoved
    exact request_change.moves hreached hjob hstatus hjob' hmoved
  · intro effect hmem hsettled gateJobId jobId operationKey hkey
    have hne : effect.state ≠ .pending := fun hpending =>
      HumanGateResume.not_isSettled hpending hsettled
    exact request_settled hreached (hkept effect hmem hne) hsettled hkey

/-- A gate, a job that a worker has parked under its lease, and a plan under assessment. -/
def parkedUnderLease : Db where
  jobs := [
    { id := 5, workItemId := some 1, jobType := .dev, status := .waitingOnHuman,
      leaseOwner := some "w", leaseToken := some 0, leaseExpiresAt := some 100 },
    { id := 7, workItemId := some 1, jobType := .plan, status := .awaitingAssessment,
      leaseOwner := some "w", leaseToken := some 1, leaseExpiresAt := some 100 }]
  humanGates := [{ gateJobId := 6, gateKind := "question" }]

theorem resume_delivered_once_release :
    (parkedUnderLease.jobs.map Job.id).Nodup ∧ parkedUnderLease.humanGateOutbox = [] ∧
      Runs.Meets resumeStep ResumeOk parkedUnderLease
        ([.requestParkedJobResumeAfterGate 6 5 "k"] ++
          [.releaseLease ⟨20, 20, 0⟩ 5 0 .waitingOnHuman none]) ∧
      ∀ jobId,
        HasPendingResume (Runs.run resumeStep (Runs.run resumeStep parkedUnderLease
          [.requestParkedJobResumeAfterGate 6 5 "k"])
          [.releaseLease ⟨20, 20, 0⟩ 5 0 .waitingOnHuman none]) jobId →
        IsLeased (Runs.run resumeStep (Runs.run resumeStep parkedUnderLease
          [.requestParkedJobResumeAfterGate 6 5 "k"])
          [.releaseLease ⟨20, 20, 0⟩ 5 0 .waitingOnHuman none]) jobId :=
  ⟨by decide, rfl, ⟨trivial, trivial, trivial⟩,
    (resume_delivered_once (by decide) rfl [.requestParkedJobResumeAfterGate 6 5 "k"]
      [.releaseLease ⟨20, 20, 0⟩ 5 0 .waitingOnHuman none]
      ⟨trivial, trivial, trivial⟩).2.2.2.2.2⟩

/-- Without the condition: a status change that ends the lease leaves the answer waiting for a blocked
job without a lease, and the sweep does so on a completed plan. -/
theorem resume_stranded :
    ((Runs.run resumeStep parkedUnderLease
        [.requestParkedJobResumeAfterGate 6 5 "k",
          .updateJobStatus ⟨20, 20, 0⟩ 5 .blocked { leaseToken := some 0 }]).humanGateOutbox =
        [⟨6, "k", 5, .pending⟩] ∧
      ((Runs.run resumeStep parkedUnderLease
        [.requestParkedJobResumeAfterGate 6 5 "k",
          .updateJobStatus ⟨20, 20, 0⟩ 5 .blocked { leaseToken := some 0 }]).getJob 5).map
        (fun job => (job.status, job.leaseToken)) = some (.blocked, none)) ∧
    ((Runs.run resumeStep parkedUnderLease
        [.requestParkedJobResumeAfterGate 6 7 "k",
          .requeueExpiredLeases ⟨200, 200, 0⟩ (· == 7)
            (parkedUnderLease.jobs.filter (isExpired ⟨200, 200, 0⟩))]).humanGateOutbox =
        [⟨6, "k", 7, .pending⟩] ∧
      ((Runs.run resumeStep parkedUnderLease
        [.requestParkedJobResumeAfterGate 6 7 "k",
          .requeueExpiredLeases ⟨200, 200, 0⟩ (· == 7)
            (parkedUnderLease.jobs.filter (isExpired ⟨200, 200, 0⟩))]).getJob 7).map
        (fun job => (job.status, job.leaseToken)) = some (.succeeded, none)) := by
  decide +kernel

end PosseClient
