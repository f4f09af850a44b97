/-
# What the work-item transactions keep

A transaction of `WorkItemMerge` writes the rows of a few work items, forces jobs to a status and
opens or settles gates.  `Keeps R` says that it moves every work item by `R` and starts resolving
no gate; it is proved once for each function, with a relation of rows that covers the claim of an
automatic merge and a merge that has landed (`Holds`) where the function allows it.

* Jobs and gates alone keep the work items as they are: `Keeps Eq`.
* `keeps_updateWorkItemStatus` and `keeps_requeueWorkItemAfterRejection` are where the guards of
  the source are used.
-/
import PosseClient.Queue.GateLifecycle
import PosseClient.Queue.WorkItemMerge

namespace PosseClient

/-! ## 1. What a writer may do to a work item -/

/-- A work item that is claimed afterwards was claimed before, and is not less complete. -/
structure HoldsClaim (wi wi' : WorkItem) : Prop where
  id : wi'.id = wi.id
  claimed : wi'.mergeState = some .mergeAuthorized →
    wi.mergeState = some .mergeAuthorized ∧ (wi.status = .complete → wi'.status = .complete)

/-- A merged work item stays merged, and complete if it was. -/
structure HoldsMerge (wi wi' : WorkItem) : Prop where
  id : wi'.id = wi.id
  merged : wi.mergeState = some .merged →
    wi'.mergeState = some .merged ∧ (wi.status = .complete → wi'.status = .complete)

/-- Both. -/
structure Holds (wi wi' : WorkItem) : Prop where
  claim : HoldsClaim wi wi'
  merge : HoldsMerge wi wi'

/-- A relation of the rows of `work_items` around a transaction. -/
structure RowRelation (R : WorkItem → WorkItem → Prop) : Prop where
  refl : ∀ wi, R wi wi
  trans : ∀ a b c, R a b → R b c → R a c
  id : ∀ a b, R a b → b.id = a.id

theorem HoldsClaim.trans {a b c : WorkItem} (h : HoldsClaim a b) (h' : HoldsClaim b c) :
    HoldsClaim a c := by
  refine ⟨h'.id.trans h.id, fun hclaimed => ?_⟩
  obtain ⟨hmid, hcomplete'⟩ := h'.claimed hclaimed
  obtain ⟨hfirst, hcomplete⟩ := h.claimed hmid
  exact ⟨hfirst, fun hstatus => hcomplete' (hcomplete hstatus)⟩

theorem HoldsMerge.trans {a b c : WorkItem} (h : HoldsMerge a b) (h' : HoldsMerge b c) :
    HoldsMerge a c := by
  refine ⟨h'.id.trans h.id, fun hmerged => ?_⟩
  obtain ⟨hmid, hcomplete⟩ := h.merged hmerged
  obtain ⟨hlast, hcomplete'⟩ := h'.merged hmid
  exact ⟨hlast, fun hstatus => hcomplete' (hcomplete hstatus)⟩

theorem rowRelation_eq : RowRelation Eq :=
  ⟨fun _ => rfl, fun _ _ _ => Eq.trans, fun _ _ h => h ▸ rfl⟩

theorem rowRelation_holdsClaim : RowRelation HoldsClaim :=
  ⟨fun _ => ⟨rfl, fun h => ⟨h, id⟩⟩, fun _ _ _ => HoldsClaim.trans, fun _ _ h => h.id⟩

theorem rowRelation_holdsMerge : RowRelation HoldsMerge :=
  ⟨fun _ => ⟨rfl, fun h => ⟨h, id⟩⟩, fun _ _ _ => HoldsMerge.trans, fun _ _ h => h.id⟩

theorem rowRelation_holds : RowRelation Holds :=
  ⟨fun wi => ⟨rowRelation_holdsClaim.refl wi, rowRelation_holdsMerge.refl wi⟩,
    fun _ _ _ h h' => ⟨h.claim.trans h'.claim, h.merge.trans h'.merge⟩, fun _ _ h => h.claim.id⟩

/-- A work item that loses its merge state may have lost a claim, not gained one. -/
theorem holdsClaim_of_unclaimed {wi wi' : WorkItem} (hid : wi'.id = wi.id)
    (h : wi'.mergeState ≠ some .mergeAuthorized) : HoldsClaim wi wi' :=
  ⟨hid, fun hclaimed => absurd hclaimed h⟩

theorem holdsMerge_of_unmerged {wi wi' : WorkItem} (hid : wi'.id = wi.id)
    (h : wi.mergeState ≠ some .merged) : HoldsMerge wi wi' :=
  ⟨hid, fun hmerged => absurd hmerged h⟩

/-- A completion keeps both. -/
theorem holds_complete (wi : WorkItem) : Holds wi { wi with status := .complete } :=
  ⟨⟨rfl, fun h => ⟨h, fun _ => rfl⟩⟩, ⟨rfl, fun h => ⟨h, fun _ => rfl⟩⟩⟩

/-! ## 2. What a transaction does to the tables -/

/-- A gate of the work item is being resolved. -/
def hasResolvingGate (db : Db) (workItemId : ℕ) : Bool :=
  (gatesOfWorkItem db workItemId).any (fun gate => gate.gateState == .resolving)

theorem hasResolvingGate_iff {db : Db} {workItemId : ℕ} :
    hasResolvingGate db workItemId = true ↔ ∃ gate ∈ db.humanGates,
      gateWorkItem db gate = some workItemId ∧ gate.gateState = .resolving := by
  simp [hasResolvingGate, gatesOfWorkItem]

/-- The work items move by `R`, and no gate starts to be resolved. -/
structure Keeps (R : WorkItem → WorkItem → Prop) (db db' : Db) : Prop where
  workItems : List.Forall₂ R db.workItems db'.workItems
  jobIds : (db.jobs.map Job.id).Nodup → (db'.jobs.map Job.id).Nodup
  resolving : (db.jobs.map Job.id).Nodup → ∀ workItemId,
    hasResolvingGate db' workItemId = true → hasResolvingGate db workItemId = true

section Keeps

variable {R : WorkItem → WorkItem → Prop}

theorem Keeps.refl (hR : RowRelation R) (db : Db) : Keeps R db db :=
  ⟨List.forall₂_same.mpr fun wi _ => hR.refl wi, id, fun _ _ => id⟩

theorem Keeps.trans (hR : RowRelation R) {a b c : Db} (h : Keeps R a b) (h' : Keeps R b c) :
    Keeps R a c := by
  have : IsTrans WorkItem R := ⟨hR.trans⟩
  exact ⟨Table.forall₂_trans h.workItems h'.workItems, fun hids => h'.jobIds (h.jobIds hids),
    fun hids workItemId hgate =>
      h.resolving hids workItemId (h'.resolving (h.jobIds hids) workItemId hgate)⟩

theorem Keeps.mono {R' : WorkItem → WorkItem → Prop} {db db' : Db} (h : Keeps R db db')
    (hsub : ∀ a b, R a b → R' a b) : Keeps R' db db' :=
  ⟨h.workItems.imp hsub, h.jobIds, h.resolving⟩

/-- What leaves the work items alone keeps them by any relation. -/
theorem Keeps.of_eq (hR : RowRelation R) {db db' : Db} (h : Keeps Eq db db') : Keeps R db db' :=
  h.mono fun wi _ hwi => hwi ▸ hR.refl wi

theorem Keeps.workItems_eq {db db' : Db} (h : Keeps Eq db db') : db'.workItems = db.workItems :=
  (List.forall₂_eq_eq_eq.le _ _ h.workItems).symm

theorem Keeps.ids (hR : RowRelation R) {db db' : Db} (h : Keeps R db db') :
    db'.workItems.map WorkItem.id = db.workItems.map WorkItem.id :=
  Table.map_key_forall₂ hR.id h.workItems

theorem keeps_foldl (hR : RowRelation R) {α : Type} {step : Db → α → Db}
    (hstep : ∀ d a, Keeps R d (step d a)) (as : List α) (db : Db) :
    Keeps R db (as.foldl step db) := by
  induction as generalizing db with
  | nil => exact Keeps.refl hR db
  | cons a as ih => exact (hstep db a).trans hR (ih (step db a))

/-- An update of work items. -/
theorem keeps_updateWorkItems (hR : RowRelation R) {db : Db} {p : WorkItem → Bool}
    {f : WorkItem → WorkItem} (h : ∀ wi ∈ db.workItems, p wi = true → R wi (f wi)) :
    Keeps R db (db.updateWorkItems p f) :=
  ⟨Table.forall₂_updateWhere hR.refl h, id, fun _ _ => id⟩

theorem gateWorkItem_of_kept {db db' : Db} (h : Kept Job.workItemId db db') (gate : HumanGate) :
    gateWorkItem db' gate = gateWorkItem db gate := by
  have hread := h.getJob gate.gateJobId
  unfold gateWorkItem
  cases hjob' : db'.getJob gate.gateJobId <;> cases hjob : db.getJob gate.gateJobId <;>
    simp_all

/-- A transaction of jobs and gates that answers none of them. -/
theorem keeps_of_gates {db db' : Db} (hwi : db'.workItems = db.workItems)
    (hjobs : (db.jobs.map Job.id).Nodup → Kept Job.workItemId db db')
    (hgates : ∀ gate' ∈ db'.humanGates, gate'.gateState = .resolving →
      ∃ gate ∈ db.humanGates, gate.gateState = .resolving ∧ gate.gateJobId = gate'.gateJobId) :
    Keeps Eq db db' := by
  refine ⟨hwi ▸ List.forall₂_same.mpr fun _ _ => rfl, fun hids => (hjobs hids).ids ▸ hids, ?_⟩
  intro hids workItemId hresolving
  obtain ⟨gate', hgate', howner, hstate'⟩ := hasResolvingGate_iff.mp hresolving
  obtain ⟨gate, hgate, hstate, hid⟩ := hgates gate' hgate' hstate'
  refine hasResolvingGate_iff.mpr ⟨gate, hgate, ?_, hstate⟩
  rw [gateWorkItem_of_kept (hjobs hids)] at howner
  rw [← howner, gateWorkItem, gateWorkItem, hid]

/-- A gate that is being resolved after steps that settle was being resolved before. -/
theorem GatesStep.resolving {db db' : Db} (h : GatesStep Settles db db') :
    ∀ gate' ∈ db'.humanGates, gate'.gateState = .resolving →
      ∃ gate ∈ db.humanGates, gate.gateState = .resolving ∧ gate.gateJobId = gate'.gateJobId := by
  obtain ⟨old, new, hrows, hold, hnew⟩ := h.rows
  intro gate' hgate' hstate
  rcases List.mem_append.mp (hrows ▸ hgate') with hgate' | hgate'
  · obtain ⟨gate, hgate, hmoved⟩ := Table.exists_of_mem_forall₂ hold hgate'
    exact ⟨gate, hgate, hmoved.resolving hstate, hmoved.gateJobId.symm⟩
  · obtain ⟨start, hopen, -, hmoved⟩ := hnew gate' hgate'
    exact absurd (hmoved.resolving hstate) (by simp [hopen])

theorem keeps_locksOnly {db db' : Db} (h : LocksOnly db db') : Keeps Eq db db' :=
  keeps_of_gates h.workItems (fun _ => Kept.of_locksOnly h)
    (fun gate hgate hstate => ⟨gate, h.humanGates ▸ hgate, hstate, rfl⟩)

/-- An update of jobs that keeps their work items. -/
theorem keeps_updateJobs {db : Db} {p : Job → Bool} {f : Job → Job}
    (hid : ∀ job, p job = true → (f job).id = job.id)
    (hwi : ∀ job ∈ db.jobs, p job = true → (f job).workItemId = job.workItemId) :
    Keeps Eq db (db.updateJobs p f) :=
  keeps_of_gates rfl (fun _ => kept_updateJobs hid hwi)
    (fun gate hgate hstate => ⟨gate, hgate, hstate, rfl⟩)

theorem keeps_notify (db : Db) (wake : Wake) : Keeps Eq db (db.notify wake) :=
  keeps_locksOnly (locksOnly_notify db wake)

end Keeps

/-! ## 3. Jobs -/

theorem workItems_cancelUnusedReviewedTransfers (db : Db) (jobId : ℕ) :
    (cancelUnusedReviewedTransfers db jobId).workItems = db.workItems := by
  unfold cancelUnusedReviewedTransfers
  split
  · rfl
  · dsimp only
    split
    · rfl
    · split
      · rfl
      · exact (locksOnly_returnTransfers db _ jobId _).workItems

theorem workItems_settleGateOfJob (db : Db) (jobId : ℕ) (status : JobStatus) :
    (settleGateOfJob db jobId status).workItems = db.workItems := by
  unfold settleGateOfJob
  dsimp only
  split <;> rfl

theorem workItems_updateJobStatus (clock : Clock) (db : Db) (jobId : ℕ) (status : JobStatus)
    (options : StatusOptions) :
    (updateJobStatus clock db jobId status options).1.workItems = db.workItems := by
  have hsettled : ∀ (isGate : Bool) (updated : Db), updated.workItems = db.workItems →
      (if isGate then settleGateOfJob updated jobId status else updated).workItems =
        db.workItems := by
    intro isGate updated hupdated
    split
    · exact (workItems_settleGateOfJob updated jobId status).trans hupdated
    · exact hupdated
  unfold updateJobStatus
  dsimp only
  split
  · rfl
  · rw [Db.notify_workItems, (locksOnly_releaseJobLocksForStatus _ jobId status).workItems]
    have hupdated := fun isGate => hsettled isGate
      (db.updateJobs (statusUpdateApplies jobId options) (Job.setStatus clock status)) rfl
    split
    · exact (workItems_cancelUnusedReviewedTransfers _ jobId).trans (hupdated _)
    · exact hupdated _

theorem ignoresLease_workItemId : IgnoresLease Job.workItemId := ⟨fun _ _ _ _ _ _ _ _ => rfl,
  fun _ _ _ => rfl⟩

theorem keeps_updateJobStatus (clock : Clock) (db : Db) (jobId : ℕ) (status : JobStatus)
    (options : StatusOptions) : Keeps Eq db (updateJobStatus clock db jobId status options).1 :=
  keeps_of_gates (workItems_updateJobStatus clock db jobId status options)
    (kept_updateJobStatus ignoresLease_workItemId clock db jobId status options)
    (gatesStep_updateJobStatus clock db jobId status options).resolving

theorem keeps_forceUpdateJobStatus (clock : Clock) (db : Db) (jobId : ℕ) (status : JobStatus)
    (expected : List JobStatus) :
    Keeps Eq db (forceUpdateJobStatus clock db jobId status expected).1 :=
  keeps_updateJobStatus clock db jobId status _

theorem keeps_forceAll (clock : Clock) (status : JobStatus) (jobs : List Job) (db : Db) :
    Keeps Eq db (forceAll clock status jobs db) :=
  keeps_foldl rowRelation_eq
    (fun d (job : Job) => keeps_forceUpdateJobStatus clock d job.id status _) jobs db

/-- The key of a new job is above every key in use. -/
theorem lt_nextJobId {db : Db} {id : ℕ}
    (h : id ∈ db.jobs.map Job.id ++ db.humanGates.map HumanGate.gateJobId) : id < nextJobId db := by
  have hmax : ∀ (ids : List ℕ), ∀ i ∈ ids, i ≤ ids.foldr max 0 := by
    intro ids
    induction ids with
    | nil => simp
    | cons j ids ih =>
      intro i hi
      rw [List.foldr_cons]
      rcases List.mem_cons.mp hi with rfl | hi
      · exact le_max_left _ _
      · exact (ih i hi).trans (le_max_right _ _)
  exact Nat.lt_succ_of_le (hmax _ id h)

theorem getJob_insertJob {clock : Clock} {db : Db} {spec : JobSpec} {id : ℕ}
    (hid : id ≠ nextJobId db) : (insertJob clock db spec).getJob id = db.getJob id := by
  have hnew : ¬(newJob clock db spec).id = id := fun h => hid h.symm
  unfold Db.getJob Table.lookup insertJob
  rw [List.find?_append, List.find?_singleton, if_neg (by simpa using hnew), Option.or_none]

/-- A job is inserted and gates are settled: only other jobs own the gates there were. -/
theorem keeps_inserted (clock : Clock) (db : Db) (spec : JobSpec) {db' : Db} {jobs : List Job}
    (hwi : db'.workItems = db.workItems)
    (hjobs : jobs = (insertJob clock db spec).jobs ∨
      jobs = Table.deleteWhere (fun job => job.id == nextJobId db) (insertJob clock db spec).jobs)
    (hdb' : db'.jobs = jobs) (hgates : GatesStep Settles (insertJob clock db spec) db') :
    Keeps Eq db db' := by
  have hfresh : nextJobId db ∉ db.jobs.map Job.id := fun hmem =>
    absurd (lt_nextJobId (List.mem_append_left _ hmem)) (lt_irrefl _)
  have hids : (db.jobs.map Job.id).Nodup → ((insertJob clock db spec).jobs.map Job.id).Nodup := by
    intro hnodup
    have hmap : (insertJob clock db spec).jobs.map Job.id = (db.jobs.map Job.id).concat
        (nextJobId db) := by simp [insertJob, newJob]
    exact hmap ▸ hnodup.concat hfresh
  refine ⟨hwi ▸ List.forall₂_same.mpr fun _ _ => rfl, fun hnodup => ?_, ?_⟩
  · rw [hdb']
    rcases hjobs with rfl | rfl
    · exact hids hnodup
    · exact (hids hnodup).sublist (List.filter_sublist.map Job.id)
  · intro _ workItemId hresolving
    obtain ⟨gate', hgate', howner, hstate'⟩ := hasResolvingGate_iff.mp hresolving
    obtain ⟨gate, hgate, hstate, hid⟩ := hgates.resolving gate' hgate' hstate'
    have hkey : gate.gateJobId ∈ db.humanGates.map HumanGate.gateJobId :=
      List.mem_map.mpr ⟨gate, hgate, rfl⟩
    have hold : gate'.gateJobId ≠ nextJobId db :=
      hid ▸ (lt_nextJobId (List.mem_append_right _ hkey)).ne
    have hread : db'.getJob gate'.gateJobId = db.getJob gate'.gateJobId := by
      have hinserted : (insertJob clock db spec).getJob gate'.gateJobId =
          db.getJob gate'.gateJobId := getJob_insertJob hold
      rw [← hinserted]
      unfold Db.getJob
      rw [hdb']
      rcases hjobs with rfl | rfl
      · rfl
      · unfold Table.lookup Table.deleteWhere
        rw [List.find?_filter]
        congr 1
        funext job
        by_cases hjob : job.id = gate'.gateJobId
        · simp [hjob, hold]
        · simp [hjob]
    refine hasResolvingGate_iff.mpr ⟨gate, hgate, ?_, hstate⟩
    rw [← howner, gateWorkItem, gateWorkItem, hread, hid]

theorem registerHumanGateIn_frame (db : Db) (gateJobId : ℕ) (contract : Option GateContract) :
    (registerHumanGateIn db gateJobId contract).1.workItems = db.workItems ∧
      (registerHumanGateIn db gateJobId contract).1.jobs = db.jobs := by
  unfold registerHumanGateIn
  split
  · exact ⟨rfl, rfl⟩
  · split
    · exact ⟨rfl, rfl⟩
    · dsimp only
      split
      · exact ⟨rfl, rfl⟩
      · split
        · exact ⟨rfl, rfl⟩
        · exact ⟨rfl, rfl⟩

theorem keeps_createGateJob (clock : Clock) (db : Db) (spec : JobSpec) (contract : GateContract) :
    Keeps Eq db (createGateJob clock db spec contract).1 := by
  unfold createGateJob
  split
  · exact Keeps.refl rowRelation_eq db
  · have hframe := registerHumanGateIn_frame (insertJob clock db spec) (nextJobId db)
      (some contract)
    have hgates := gatesStep_registerHumanGateIn (insertJob clock db spec) (nextJobId db)
      (some contract)
    dsimp only
    split
    · exact Keeps.refl rowRelation_eq db
    · split
      · exact (keeps_inserted clock db spec hframe.1 (Or.inl rfl) hframe.2 hgates).trans
          rowRelation_eq (keeps_notify _ _)
      · refine keeps_inserted clock db spec hframe.1 (Or.inr rfl) ?_
          (hgates.trans_eq gateRelation_settles rfl)
        rw [← hframe.2]

theorem keeps_createJob (clock : Clock) (db : Db) (spec : JobSpec)
    (contract : Option GateContract) : Keeps Eq db (createJob clock db spec contract).1 := by
  unfold createJob
  split
  · exact Keeps.refl rowRelation_eq db
  · split
    · split
      · exact Keeps.refl rowRelation_eq db
      · exact keeps_createGateJob clock db spec _
    · have hinserted : Keeps Eq db (insertJob clock db spec) :=
        keeps_inserted clock db spec rfl (Or.inl rfl) rfl (GatesStep.refl gateRelation_settles _)
      exact hinserted.trans rowRelation_eq (keeps_notify _ _)

theorem keeps_openParkedGate (clock : Clock) (db : Db) (spec : GateSpec) :
    Keeps Eq db (openParkedGate clock db spec).1 := by
  have hcreated := keeps_createJob clock db spec.job spec.contract
  unfold openParkedGate
  dsimp only
  split
  · exact hcreated
  · exact hcreated.trans rowRelation_eq (keeps_forceUpdateJobStatus clock _ _ _ _)

theorem keeps_applyGateEffect (clock : Clock) (db : Db) (effect : GateEffect) :
    Keeps Eq db (applyGateEffect clock db effect) := by
  cases effect with
  | retire jobId =>
    unfold applyGateEffect
    dsimp only
    split
    · exact Keeps.refl rowRelation_eq db
    · exact keeps_forceUpdateJobStatus clock db jobId _ _
  | openGate spec => exact keeps_openParkedGate clock db spec

theorem keeps_settleWorkItemReviewPlan (clock : Clock) (db : Db) (plan : ReviewPlan) :
    Keeps Eq db (settleWorkItemReviewPlan clock db plan) :=
  (keeps_forceAll clock _ _ db).trans rowRelation_eq (keeps_forceAll clock _ _ _)

theorem keeps_settleMergedWorkItemReviewJobs (env : WorkItemEnv) (clock : Clock) (db : Db)
    (workItemId : ℕ) : Keeps Eq db (settleMergedWorkItemReviewJobs env clock db workItemId) := by
  unfold settleMergedWorkItemReviewJobs
  dsimp only
  refine Keeps.trans rowRelation_eq ?_
    (keeps_foldl rowRelation_eq (keeps_applyGateEffect clock) _ _)
  exact (keeps_settleWorkItemReviewPlan clock db _).trans rowRelation_eq
    (keeps_forceAll clock _ _ _)

theorem keeps_settleUpstreamGate (clock : Clock) (db : Db) (gateJobId : ℕ) :
    Keeps Eq db (settleUpstreamGate clock db gateJobId) := by
  have hresolved : Keeps Eq db (db.updateHumanGates
      (fun gate => gate.gateJobId == gateJobId && gate.gateState == .opened)
      (fun gate => { gate.resolve with resolutionAction := some "wait" })) := by
    refine keeps_of_gates rfl (fun _ => ⟨rfl, rfl⟩) (fun gate hgate hstate => ?_)
    rcases Table.mem_updateWhere_cases hgate with ⟨hmem, -⟩ | ⟨before, -, -, rfl⟩
    · exact ⟨gate, hmem, hstate, rfl⟩
    · exact absurd hstate (by simp [HumanGate.resolve])
  unfold settleUpstreamGate
  dsimp only
  split
  · exact Keeps.refl rowRelation_eq db
  · split
    · exact hresolved
    · exact hresolved.trans rowRelation_eq (keeps_forceUpdateJobStatus clock _ gateJobId _ _)

/-! ## 4. The merge state and the status -/

theorem locksOnly_restoreExistingOrderClaimLocks (db : Db) (mergedWorkItemId : ℕ) :
    LocksOnly db (restoreExistingOrderClaimLocks db mergedWorkItemId) := by
  have hrestored := @locksOnly_foldl _ restoreClaim
    (fun d claim => locksOnly_insertWorkItemFileLock d _)
    ((existingOrderClaims db mergedWorkItemId).filter
      (fun claim => claimantHoldsFileLocks db claim.1)) db
  unfold restoreExistingOrderClaimLocks
  dsimp only
  split
  · exact hrestored
  · exact hrestored.trans (locksOnly_notify _ _)

theorem locksOnly_releaseWorkItemFileLocks (db : Db) (workItemId : ℕ) (reason : ReleaseReason) :
    LocksOnly db (releaseWorkItemFileLocks db workItemId reason) :=
  locksOnly_releaseWorkItemRows db _ reason _

theorem locksOnly_releaseWorkItemLocksForMergeState (db : Db) (workItemId : ℕ)
    (mergeState : Option MergeState) :
    LocksOnly db (releaseWorkItemLocksForMergeState db workItemId mergeState) := by
  unfold releaseWorkItemLocksForMergeState
  split
  · exact (locksOnly_releaseWorkItemFileLocks db workItemId _).trans
      (locksOnly_restoreExistingOrderClaimLocks _ workItemId)
  · exact LocksOnly.refl db

theorem locksOnly_releaseWorkItemLocksForStatus (db : Db) (workItemId : ℕ)
    (status : WorkItemStatus) :
    LocksOnly db (releaseWorkItemLocksForStatus db workItemId status) := by
  unfold releaseWorkItemLocksForStatus
  split
  · exact locksOnly_releaseWorkItemFileLocks db workItemId _
  · exact LocksOnly.refl db

theorem keeps_setMergeState {R : WorkItem → WorkItem → Prop} (hR : RowRelation R)
    (env : WorkItemEnv) (clock : Clock) (db : Db) (workItemId : ℕ)
    (mergeState : Option MergeState)
    (hrow : ∀ wi ∈ db.workItems, wi.id = workItemId → R wi { wi with mergeState := mergeState }) :
    Keeps R db (setMergeState env clock db workItemId mergeState) := by
  have hwritten : Keeps R db
      (updateWorkItem db workItemId (fun wi => { wi with mergeState := mergeState })) :=
    keeps_updateWorkItems hR (fun wi hwi hid => hrow wi hwi (beq_iff_eq.mp hid))
  unfold setMergeState
  dsimp only
  refine Keeps.trans hR ?_ ((keeps_locksOnly
    (locksOnly_releaseWorkItemLocksForMergeState _ workItemId mergeState)).of_eq hR)
  split
  · refine hwritten.trans hR (Keeps.of_eq hR ?_)
    exact (keeps_settleMergedWorkItemReviewJobs env clock _ workItemId).trans rowRelation_eq
      (keeps_foldl rowRelation_eq (keeps_settleUpstreamGate clock) _ _)
  · exact hwritten

/-- A merge that lands keeps both facts. -/
theorem keeps_setMergeState_merged (env : WorkItemEnv) (clock : Clock) (db : Db)
    (workItemId : ℕ) : Keeps Holds db (setMergeState env clock db workItemId (some .merged)) :=
  keeps_setMergeState rowRelation_holds env clock db workItemId _
    (fun _ _ _ => ⟨holdsClaim_of_unclaimed rfl (by simp), ⟨rfl, fun _ => ⟨rfl, id⟩⟩⟩)

theorem keeps_settleJobsForStatus (env : WorkItemEnv) (clock : Clock) (db : Db) (wi : WorkItem)
    (status : WorkItemStatus) (preserve : List ℕ) :
    Keeps Eq db (settleJobsForStatus env clock db wi status preserve) := by
  have hheld : Keeps Eq db (if status ∈ wiLockReleaseStatuses ∧ wi.status ≠ status then
      forceAll clock .canceled
        ((listJobsByWorkItem db wi.id).filter (isPostMergeHeldDbJob env)) db else db) := by
    split
    · exact keeps_forceAll clock _ _ db
    · exact Keeps.refl rowRelation_eq db
  unfold settleJobsForStatus
  dsimp only
  split
  · exact hheld.trans rowRelation_eq (keeps_forceAll clock _ _ _)
  · exact hheld

theorem keeps_writeWorkItemStatus {db : Db} {wi : WorkItem} {status : WorkItemStatus}
    (hasMergedEvidence : Bool)
    (hrow : ∀ row ∈ db.workItems, row.id = wi.id → Holds row { row with status := status }) :
    Keeps Holds db (writeWorkItemStatus db wi status hasMergedEvidence) := by
  have hwritten : Keeps Holds db
      (updateWorkItem db wi.id (fun row => { row with status := status })) :=
    keeps_updateWorkItems rowRelation_holds (fun row hmem hid => hrow row hmem (beq_iff_eq.mp hid))
  unfold writeWorkItemStatus
  dsimp only
  split
  · refine hwritten.trans rowRelation_holds (keeps_updateWorkItems rowRelation_holds ?_)
    intro row _ hp
    rw [Bool.and_eq_true, beq_iff_eq, beq_iff_eq] at hp
    exact ⟨holdsClaim_of_unclaimed rfl (by simp), holdsMerge_of_unmerged rfl (by simp [hp.2])⟩
  · exact hwritten

theorem keeps_settleWorkItemStatus (env : WorkItemEnv) (clock : Clock) (db : Db) (wi : WorkItem)
    (status : WorkItemStatus) (hasMergedEvidence : Bool) :
    Keeps Eq db (settleWorkItemStatus env clock db wi status hasMergedEvidence) := by
  unfold settleWorkItemStatus
  dsimp only
  refine Keeps.trans rowRelation_eq ?_ (keeps_notify _ _)
  have hopened : Keeps Eq db
      (if wi.status ≠ status ∧ ¬(status = .complete ∧ hasMergedEvidence = true) then
        (env.dispositionEffects db wi.id status).foldl (applyGateEffect clock) db else db) := by
    split
    · exact keeps_foldl rowRelation_eq (keeps_applyGateEffect clock) _ db
    · exact Keeps.refl rowRelation_eq db
  have hreleased := hopened.trans rowRelation_eq
    (keeps_locksOnly (locksOnly_releaseWorkItemLocksForStatus _ wi.id status))
  split
  · exact hreleased.trans rowRelation_eq
      (keeps_locksOnly (locksOnly_releaseWorkItemFileLocks _ wi.id _))
  · exact hreleased

/-- A transition that is allowed keeps both facts if the row it writes does. -/
theorem keeps_applyWorkItemStatus {env : WorkItemEnv} {clock : Clock} {db db' : Db}
    {wi : WorkItem} {status : WorkItemStatus} {options : CompletionOptions}
    {hasMergedEvidence : Bool}
    (h : applyWorkItemStatus env clock db wi status options hasMergedEvidence = some db')
    (hrow : ∀ row ∈ db.workItems, row.id = wi.id → Holds row { row with status := status }) :
    Keeps Holds db db' := by
  unfold applyWorkItemStatus at h
  dsimp only at h
  obtain ⟨reviewed, hreviewed, rfl⟩ := Option.map_eq_some_iff.mp h
  have hsettled : Keeps Eq db reviewed := by
    split_ifs at hreviewed with hcomplete hevidence
    · obtain rfl := Option.some.inj hreviewed
      exact keeps_settleMergedWorkItemReviewJobs env clock db wi.id
    · obtain ⟨plan, -, rfl⟩ := Option.map_eq_some_iff.mp hreviewed
      exact keeps_settleWorkItemReviewPlan clock db plan
    · obtain rfl := Option.some.inj hreviewed
      exact Keeps.refl rowRelation_eq db
  have hjobs := hsettled.trans rowRelation_eq
    (keeps_settleJobsForStatus env clock reviewed wi status options.preserveJobIds)
  refine (hjobs.of_eq rowRelation_holds).trans rowRelation_holds ?_
  refine Keeps.trans rowRelation_holds (keeps_writeWorkItemStatus hasMergedEvidence ?_)
    ((keeps_settleWorkItemStatus env clock _ wi status hasMergedEvidence).of_eq rowRelation_holds)
  rw [hjobs.workItems_eq]
  exact hrow

/-- The one row with the id of a work item is what a read of it finds. -/
theorem eq_of_getWorkItem {db : Db} (hids : (db.workItems.map WorkItem.id).Nodup) {id : ℕ}
    {wi row : WorkItem} (hwi : db.getWorkItem id = some wi) (hrow : row ∈ db.workItems)
    (hid : row.id = id) : row = wi :=
  Table.eq_of_key_eq hids hrow (Table.lookup_mem hwi) (hid.trans (Table.lookup_key hwi).symm)

/-- **The guarded setter keeps both facts.**  A transition away from `complete` is refused where
the row is merged or claimed. -/
theorem keeps_updateWorkItemStatus (env : WorkItemEnv) (clock : Clock) {db : Db}
    (hids : (db.workItems.map WorkItem.id).Nodup) (workItemId : ℕ) (status : WorkItemStatus)
    (options : CompletionOptions) :
    Keeps Holds db (updateWorkItemStatus env clock db workItemId status options).1 := by
  unfold updateWorkItemStatus
  cases hwi : db.getWorkItem workItemId with
  | none => exact Keeps.refl rowRelation_holds db
  | some wi =>
    have hkey : wi.id = workItemId := Table.lookup_key hwi
    have hrepaired : Keeps Holds db (if effectiveMergedEvidence env wi = true ∧
        wi.mergeState ≠ some .merged then setMergeState env clock db wi.id (some .merged)
        else db) := by
      split
      · exact keeps_setMergeState_merged env clock db wi.id
      · exact Keeps.refl rowRelation_holds db
    dsimp only
    by_cases hevidence : effectiveMergedEvidence env wi = true ∧ status ≠ .complete
    · rw [if_pos hevidence]
      exact Keeps.refl rowRelation_holds db
    rw [if_neg hevidence]
    by_cases hclaim : wi.mergeState = some .mergeAuthorized ∧ status ≠ .complete
    · rw [if_pos hclaim]
      exact Keeps.refl rowRelation_holds db
    rw [if_neg hclaim]
    by_cases hterminal : wi.status ∈ terminalWorkItemStatuses ∧
        status ∉ terminalWorkItemStatuses ∧ wi.status ≠ status ∧ env.isActiveIterative wi = false
    · rw [if_pos hterminal]
      exact hrepaired
    rw [if_neg hterminal]
    cases happlied : applyWorkItemStatus env clock (if effectiveMergedEvidence env wi = true ∧
        wi.mergeState ≠ some .merged then setMergeState env clock db wi.id (some .merged)
        else db) wi status options (effectiveMergedEvidence env wi) with
    | none => exact hrepaired
    | some db' =>
      refine hrepaired.trans rowRelation_holds (keeps_applyWorkItemStatus happlied ?_)
      intro row hrow hid
      by_cases hcomplete : status = .complete
      · exact hcomplete ▸ holds_complete row
      · -- nothing was repaired, and the row is the one that was read
        have hnone : effectiveMergedEvidence env wi = false := by
          rw [← Bool.not_eq_true]
          exact fun h => hevidence ⟨h, hcomplete⟩
        rw [if_neg (fun h => absurd (hnone.symm.trans h.1) (by simp))] at hrow
        have hsame : row = wi := eq_of_getWorkItem hids hwi hrow (hid.trans hkey)
        subst hsame
        rw [effectiveMergedEvidence, Bool.or_eq_false_iff, beq_eq_false_iff_ne] at hnone
        exact ⟨holdsClaim_of_unclaimed rfl (fun h => hclaim ⟨h, hcomplete⟩),
          holdsMerge_of_unmerged rfl hnone.1⟩

theorem keeps_refreshWorkItemStatus (env : WorkItemEnv) (clock : Clock) {db : Db}
    (hids : (db.workItems.map WorkItem.id).Nodup) (workItemId : ℕ) :
    Keeps Holds db (refreshWorkItemStatus env clock db workItemId) := by
  unfold refreshWorkItemStatus
  split
  · exact Keeps.refl rowRelation_holds db
  · rename_i wi hwi
    split
    · exact Keeps.refl rowRelation_holds db
    · split
      · dsimp only
        have hmerged : Keeps Holds db (if wi.mergeState ≠ some .merged then
            setMergeState env clock db workItemId (some .merged) else db) := by
          split
          · exact keeps_setMergeState_merged env clock db workItemId
          · exact Keeps.refl rowRelation_holds db
        have hids' := hmerged.ids rowRelation_holds ▸ hids
        split
        · exact hmerged.trans rowRelation_holds
            (keeps_updateWorkItemStatus env clock hids' workItemId _ _)
        · exact hmerged
      · split
        · exact Keeps.refl rowRelation_holds db
        · split
          · exact Keeps.refl rowRelation_holds db
          · exact keeps_updateWorkItemStatus env clock hids workItemId _ _

/-! ## 5. The writers with guards of their own -/

/-- A refresh changes the contract of a gate, not its state. -/
theorem keeps_refreshHumanGateContract (db : Db) (gateJobId : ℕ) (contract : GateContract) :
    Keeps Eq db (refreshHumanGateContract db gateJobId contract) := by
  refine keeps_of_gates rfl (fun _ => ⟨rfl, rfl⟩) (fun gate hgate hstate => ?_)
  rcases Table.mem_updateWhere_cases hgate with ⟨hmem, -⟩ | ⟨before, hmem, -, rfl⟩
  · exact ⟨gate, hmem, hstate, rfl⟩
  · exact ⟨before, hmem, hstate, rfl⟩

theorem keeps_refreshMergeFailureGate (db : Db) (gateJobId workItemId : ℕ) (payload : Payload)
    (contract : GateContract) :
    Keeps Eq db (refreshMergeFailureGate db gateJobId workItemId payload contract) := by
  have hpayload : Keeps Eq db (db.updateJobs (fun job => job.id == gateJobId)
      (fun job => { job with payload := payload })) :=
    keeps_updateJobs (fun _ _ => rfl) (fun _ _ _ => rfl)
  unfold refreshMergeFailureGate
  dsimp only
  exact (hpayload.trans rowRelation_eq (keeps_notify _ _)).trans rowRelation_eq
    (keeps_refreshHumanGateContract _ gateJobId contract)

theorem keeps_markWorkItemMergeFailed (env : WorkItemEnv) (clock : Clock) (db : Db)
    (workItemId : ℕ) (spec : GateSpec) :
    Keeps Holds db (markWorkItemMergeFailed env clock db workItemId spec).1 := by
  have hfailed : Keeps Holds db (db.updateWorkItems
      (fun wi => wi.id == workItemId && wi.mergeState != some .merged)
      (fun wi => { wi with mergeState := some .mergeFailed })) := by
    refine keeps_updateWorkItems rowRelation_holds (fun wi _ hp => ?_)
    rw [Bool.and_eq_true, bne_iff_ne] at hp
    exact ⟨holdsClaim_of_unclaimed rfl (by simp), holdsMerge_of_unmerged rfl hp.2⟩
  have hrefreshed := keeps_refreshMergeFailureGate
  unfold markWorkItemMergeFailed
  dsimp only
  split
  · exact Keeps.refl rowRelation_holds db
  · split
    · split
      · exact Keeps.refl rowRelation_holds db
      · exact hfailed.trans rowRelation_holds
          ((keeps_openParkedGate clock _ spec).of_eq rowRelation_holds)
    · split
      · exact Keeps.refl rowRelation_holds db
      · split
        · exact Keeps.refl rowRelation_holds db
        · exact hfailed.trans rowRelation_holds
            ((hrefreshed _ _ workItemId _ _).of_eq rowRelation_holds)

theorem keeps_recordWorkItemBranchReset {R : WorkItem → WorkItem → Prop} (hR : RowRelation R)
    (hrow : ∀ wi, R wi { wi with generation := wi.generation + 1 }) (db : Db) (workItemId : ℕ) :
    Keeps R db (recordWorkItemBranchReset db workItemId) :=
  keeps_updateWorkItems hR (fun wi _ _ => hrow wi)

/-- A reopened work item has no claim. -/
theorem keeps_reopenWorkItemForFollowUp (db : Db) (workItemId : ℕ) (status : WorkItemStatus)
    (reason : String) :
    Keeps HoldsClaim db (reopenWorkItemForFollowUp db workItemId status reason).1 := by
  have hR := rowRelation_holdsClaim
  unfold reopenWorkItemForFollowUp
  split
  · exact Keeps.refl hR db
  · split
    · exact Keeps.refl hR db
    · dsimp only
      have hreopened : Keeps HoldsClaim db (updateWorkItem db workItemId
          (fun row => { row with status := status, mergeState := none })) :=
        keeps_updateWorkItems hR (fun wi _ _ => holdsClaim_of_unclaimed rfl (by simp))
      have hreleased := hreopened.trans hR ((keeps_locksOnly
        (locksOnly_releaseWorkItemFileLocks _ workItemId (.named reason))).of_eq hR)
      split
      · exact hreleased
      · exact hreleased.trans hR
          (keeps_recordWorkItemBranchReset hR (fun wi => ⟨rfl, fun h => ⟨h, id⟩⟩) _ workItemId)

theorem keeps_supersedeJob (clock : Clock) (spared : List JobStatus) (db : Db) (job : Job) :
    Keeps Eq db (supersedeJob clock spared db job) := by
  unfold supersedeJob
  split
  · exact Keeps.refl rowRelation_eq db
  · split
    · exact Keeps.refl rowRelation_eq db
    · exact keeps_forceUpdateJobStatus clock db _ _ _

theorem keeps_retryJob (clock : Clock) (db : Db) (jobId : ℕ) :
    Keeps Eq db (retryJob clock db jobId) := by
  unfold retryJob
  split
  · exact Keeps.refl rowRelation_eq db
  · dsimp only
    have hqueued := keeps_forceUpdateJobStatus clock db jobId .queued
    split
    · exact (hqueued _).trans rowRelation_eq
        (keeps_updateJobs (fun _ _ => rfl) (fun _ _ _ => rfl))
    · exact hqueued _

theorem keeps_supersedeOldPlan (env : WorkItemEnv) (clock : Clock) (db : Db) (workItemId : ℕ)
    (jobs heldDbTasks : List Job) (kept : List ℕ) :
    Keeps Eq db (supersedeOldPlan env clock db workItemId jobs heldDbTasks kept) := by
  have hR := rowRelation_eq
  have hfold := fun spared jobs d => keeps_foldl hR (keeps_supersedeJob clock spared) jobs d
  unfold supersedeOldPlan
  dsimp only
  exact ((hfold _ _ db).trans hR (hfold _ _ _)).trans hR (hfold _ _ _)

theorem keeps_requeueRejectedJobs (env : WorkItemEnv) (clock : Clock) (db : Db) (wi : WorkItem)
    (options : RejectionOptions) :
    Keeps Eq db (requeueRejectedJobs env clock db wi options) := by
  have hR := rowRelation_eq
  have hplanned : ∀ {p : Prop} [Decidable p], Keeps Eq db (if p then
      createJob clock db (planSpec wi.id options.fallbackPlan) none else (db, none)).1 := by
    intro p _
    split
    · exact keeps_createJob clock db _ none
    · exact Keeps.refl hR db
  have hretired := fun jobs jobs' {p : Prop} [Decidable p] =>
    ((hplanned (p := p)).trans hR (keeps_forceAll clock .canceled jobs _)).trans hR
      (keeps_forceAll clock .canceled jobs' _)
  unfold requeueRejectedJobs
  dsimp only
  split
  · exact ((hretired _ _).trans hR (keeps_createJob clock _ _ none)).trans hR
      (keeps_supersedeOldPlan env clock _ wi.id _ _ _)
  · exact (hretired _ _).trans hR (keeps_foldl hR (keeps_retryJob clock) _ _)

theorem keeps_discardSyncRecords (db : Db) (job : Job) :
    Keeps Eq db (discardSyncRecords db job) := by
  unfold discardSyncRecords
  split
  · exact Keeps.refl rowRelation_eq db
  · have hdiscarded : Keeps Eq db (db.updateJobs (fun j => j.id == job.id)
        (fun j => { j with payload := { j.payload with crossWiFileSyncs := [] } })) :=
      keeps_updateJobs (fun _ _ => rfl) (fun _ _ _ => rfl)
    exact hdiscarded.trans rowRelation_eq (keeps_notify _ _)

theorem keeps_forgetDiscardedWorkItemBranch (db : Db) (workItemId : ℕ) (reason : ReleaseReason) :
    Keeps Holds db (forgetDiscardedWorkItemBranch db workItemId reason) := by
  have hR := rowRelation_holds
  have hrow : ∀ wi : WorkItem, Holds wi { wi with generation := wi.generation + 1 } :=
    fun wi => ⟨⟨rfl, fun h => ⟨h, id⟩⟩, ⟨rfl, fun h => ⟨h, id⟩⟩⟩
  have hreleased := keeps_locksOnly (locksOnly_releaseWorkItemFileLocks db workItemId reason)
  unfold forgetDiscardedWorkItemBranch
  dsimp only
  refine Keeps.trans hR (Keeps.of_eq hR ?_) (keeps_recordWorkItemBranchReset hR hrow _ workItemId)
  exact hreleased.trans rowRelation_eq (keeps_foldl rowRelation_eq keeps_discardSyncRecords _ _)

/-- A requeue is refused for a merged work item, and drops a claim. -/
theorem keeps_requeueWorkItemAfterRejection (env : WorkItemEnv) (clock : Clock) {db : Db}
    (hids : (db.workItems.map WorkItem.id).Nodup) (workItemId : ℕ) (options : RejectionOptions) :
    Keeps Holds db (requeueWorkItemAfterRejection env clock db workItemId options).1 := by
  have hR := rowRelation_holds
  unfold requeueWorkItemAfterRejection
  split
  · exact Keeps.refl hR db
  · rename_i wi hwi
    split
    · exact Keeps.refl hR db
    · rename_i hready
      rw [Bool.not_eq_false, canRequeueAfterRejection, Bool.and_eq_true, Bool.not_eq_true'] at hready
      have hunmerged : wi.mergeState ≠ some .merged := by
        have hevidence := hready.1
        rw [effectiveMergedEvidence, Bool.or_eq_false_iff, beq_eq_false_iff_ne] at hevidence
        exact hevidence.1
      have hjobs := keeps_requeueRejectedJobs env clock db wi options
      have hqueued : Keeps Holds db (updateWorkItem (requeueRejectedJobs env clock db wi options)
          workItemId (fun row => { row with status := .queued, mergeState := none })) := by
        refine (hjobs.of_eq hR).trans hR (keeps_updateWorkItems hR (fun row hrow hid => ?_))
        rw [hjobs.workItems_eq] at hrow
        have hsame : row = wi := eq_of_getWorkItem hids hwi hrow (beq_iff_eq.mp hid)
        subst hsame
        exact ⟨holdsClaim_of_unclaimed rfl (by simp), holdsMerge_of_unmerged rfl hunmerged⟩
      dsimp only
      have hsettled : ∀ d, Keeps Holds db d →
          Keeps Holds db (refreshWorkItemStatus env clock d workItemId) := fun d hd =>
        hd.trans hR (keeps_refreshWorkItemStatus env clock (hd.ids hR ▸ hids) workItemId)
      refine hsettled _ ?_
      split
      · exact hqueued.trans hR (keeps_forgetDiscardedWorkItemBranch _ workItemId _)
      · exact hqueued

/-- A claim is released to a state that is not a claim. -/
theorem keeps_releaseWorkItemAutoMergeAuthorization (db : Db) (workItemId : ℕ)
    (previous : Option MergeState) :
    Keeps Holds db (releaseWorkItemAutoMergeAuthorization db workItemId previous) := by
  refine keeps_updateWorkItems rowRelation_holds (fun wi _ hp => ?_)
  rw [Bool.and_eq_true, beq_iff_eq, beq_iff_eq] at hp
  refine ⟨holdsClaim_of_unclaimed rfl ?_, holdsMerge_of_unmerged rfl (by simp [hp.2])⟩
  dsimp only
  split_ifs with hprevious
  · simp
  · exact hprevious

/-- A claim that is made is of a complete work item without an active gate. -/
theorem authorizeWorkItemAutoMerge_cases (env : WorkItemEnv) (clock : Clock) (db : Db)
    (workItemId : ℕ) (expectedBranch : Option String) :
    Keeps Eq db (authorizeWorkItemAutoMerge env clock db workItemId expectedBranch).1 ∨
    ∃ wi, db.getWorkItem workItemId = some wi ∧ wi.status = .complete ∧
      wi.mergeState ≠ some .merged ∧ findMergeHoldingGate env db wi.id = false ∧
      (authorizeWorkItemAutoMerge env clock db workItemId expectedBranch).1 =
        db.updateWorkItems (fun row => row.id == wi.id && row.status == .complete &&
          row.branchName == some (trim (wi.branchName.getD "")) &&
          row.mergeState != some .merged)
          (fun row => { row with mergeState := some .mergeAuthorized }) := by
  have hrefl := Keeps.refl rowRelation_eq db
  unfold authorizeWorkItemAutoMerge
  cases hwi : db.getWorkItem workItemId with
  | none => exact Or.inl hrefl
  | some wi =>
    dsimp only
    cases hcheck : checkMergeClaim env db wi expectedBranch with
    | some refusal => exact Or.inl hrefl
    | none =>
      unfold checkMergeClaim at hcheck
      dsimp only at hcheck
      split_ifs at hcheck with hcomplete hbranch hmerged hupstream hblocked hgate
      dsimp only
      cases env.verificationReview db wi with
      | holds => exact Or.inl hrefl
      | opens spec => exact Or.inl (keeps_openParkedGate clock db spec)
      | notRequired =>
        dsimp only
        unfold claimMerge
        dsimp only
        split_ifs
        · exact Or.inl hrefl
        · exact Or.inl hrefl
        · exact Or.inr ⟨wi, rfl, not_not.mp hcomplete, hmerged, Bool.not_eq_true _ ▸ hgate, rfl⟩

/-- A hold leaves merged work items. -/
theorem keeps_holdWorkItemForPendingMerge (db : Db) (workItemId : ℕ) :
    Keeps HoldsMerge db (holdWorkItemForPendingMerge db workItemId).1 := by
  have hR := rowRelation_holdsMerge
  unfold holdWorkItemForPendingMerge
  split
  · exact Keeps.refl hR db
  · split
    · exact Keeps.refl hR db
    · split
      · exact Keeps.refl hR db
      · refine Keeps.trans hR (keeps_updateWorkItems hR (fun wi _ hp => ?_))
          ((keeps_notify _ _).of_eq hR)
        rw [Bool.and_eq_true, Bool.and_eq_true, bne_iff_ne] at hp
        exact holdsMerge_of_unmerged rfl hp.1.2

end PosseClient
