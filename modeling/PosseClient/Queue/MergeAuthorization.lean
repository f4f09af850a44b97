/-
# The claim of an automatic merge, and a merge that has landed

Two facts about every run of the work-item transactions.  A work item claimed for an automatic
merge (`merge_authorized`) is complete and no gate of it is being resolved; and a merged work
item stays complete and merged until it is reopened.

* `merged_work_item_stays_merged` needs nothing: every writer has its guard.
* `merge_claim_holds` needs a condition: `holdWorkItemForPendingMerge` has no guard against the
  claim.  `merge_claim_lost_by_hold` is a run in which the claim is lost.
-/
import PosseClient.Queue.WorkItemFrames

namespace PosseClient

/-! ## 1. Runs -/

/-- A transaction of the queue on work items, jobs and gates, with everything it does not
control. -/
inductive QueueOp
  | authorizeWorkItemAutoMerge (env : WorkItemEnv) (clock : Clock) (workItemId : ℕ)
      (expectedBranch : Option String)
  | releaseWorkItemAutoMergeAuthorization (workItemId : ℕ) (previous : Option MergeState)
  | beginHumanGateResolution (clock : Clock) (gateJobId : ℕ) (leaseToken : Option ℕ)
      (action : String) (requestKey : Option String) (requireLease : Bool)
  | completeHumanGateResolution (clock : Clock) (gateJobId : ℕ) (leaseToken : Option ℕ)
  | reopenHumanGateResolution (gateJobId : ℕ) (leaseToken : Option ℕ)
  | createJob (clock : Clock) (spec : JobSpec) (contract : Option GateContract)
  | registerHumanGate (gateJobId : ℕ) (contract : Option GateContract)
  | updateJobStatus (clock : Clock) (jobId : ℕ) (status : JobStatus) (options : StatusOptions)
  | updateWorkItemStatus (env : WorkItemEnv) (clock : Clock) (workItemId : ℕ)
      (status : WorkItemStatus) (options : CompletionOptions)
  | refreshWorkItemStatus (env : WorkItemEnv) (clock : Clock) (workItemId : ℕ)
  | holdWorkItemForPendingMerge (workItemId : ℕ)
  | requeueWorkItemAfterRejection (env : WorkItemEnv) (clock : Clock) (workItemId : ℕ)
      (options : RejectionOptions)
  | markWorkItemMergeFailed (env : WorkItemEnv) (clock : Clock) (workItemId : ℕ) (spec : GateSpec)

/-- One transaction. -/
def queueStep (db : Db) : QueueOp → Db
  | .authorizeWorkItemAutoMerge env clock workItemId expectedBranch =>
    (authorizeWorkItemAutoMerge env clock db workItemId expectedBranch).1
  | .releaseWorkItemAutoMergeAuthorization workItemId previous =>
    releaseWorkItemAutoMergeAuthorization db workItemId previous
  | .beginHumanGateResolution clock gateJobId leaseToken action requestKey requireLease =>
    (beginHumanGateResolution clock db gateJobId leaseToken action requestKey requireLease).1
  | .completeHumanGateResolution clock gateJobId leaseToken =>
    (completeHumanGateResolution clock db gateJobId leaseToken).1
  | .reopenHumanGateResolution gateJobId leaseToken =>
    reopenHumanGateResolution db gateJobId leaseToken
  | .createJob clock spec contract => (createJob clock db spec contract).1
  | .registerHumanGate gateJobId contract => (registerHumanGate db gateJobId contract).1
  | .updateJobStatus clock jobId status options =>
    (updateJobStatus clock db jobId status options).1
  | .updateWorkItemStatus env clock workItemId status options =>
    (updateWorkItemStatus env clock db workItemId status options).1
  | .refreshWorkItemStatus env clock workItemId => refreshWorkItemStatus env clock db workItemId
  | .holdWorkItemForPendingMerge workItemId => (holdWorkItemForPendingMerge db workItemId).1
  | .requeueWorkItemAfterRejection env clock workItemId options =>
    (requeueWorkItemAfterRejection env clock db workItemId options).1
  | .markWorkItemMergeFailed env clock workItemId spec =>
    (markWorkItemMergeFailed env clock db workItemId spec).1

/-- A transaction of the queue, or one of the two that may clear or set any merge state. -/
inductive MergeOp
  | queue (op : QueueOp)
  | reopenWorkItemForFollowUp (workItemId : ℕ) (status : WorkItemStatus) (reason : String)
  | setMergeState (env : WorkItemEnv) (clock : Clock) (workItemId : ℕ)
      (mergeState : Option MergeState)

/-- One transaction. -/
def mergeStep (db : Db) : MergeOp → Db
  | .queue op => queueStep db op
  | .reopenWorkItemForFollowUp workItemId status reason =>
    (reopenWorkItemForFollowUp db workItemId status reason).1
  | .setMergeState env clock workItemId mergeState =>
    setMergeState env clock db workItemId mergeState

theorem keeps_registerHumanGate (db : Db) (gateJobId : ℕ) (contract : Option GateContract) :
    Keeps Eq db (registerHumanGate db gateJobId contract).1 := by
  have hframe := registerHumanGateIn_frame db gateJobId contract
  have hgates := gatesStep_registerHumanGateIn db gateJobId contract
  unfold registerHumanGate
  dsimp only
  split
  · exact Keeps.refl rowRelation_eq db
  · refine keeps_of_gates hframe.1 (fun _ => ⟨by rw [hframe.2], ?_⟩) hgates.resolving
    unfold registerHumanGateIn
    split
    · rfl
    · split
      · rfl
      · dsimp only
        split
        · rfl
        · split <;> rfl

theorem keeps_completeHumanGateResolution (clock : Clock) (db : Db) (gateJobId : ℕ)
    (leaseToken : Option ℕ) :
    Keeps Eq db (completeHumanGateResolution clock db gateJobId leaseToken).1 := by
  have hgates := (gatesStep_completeHumanGateResolution clock db gateJobId leaseToken).resolving
  have hframe : (completeHumanGateResolution clock db gateJobId leaseToken).1.workItems =
      db.workItems ∧ Kept Job.workItemId db
        (completeHumanGateResolution clock db gateJobId leaseToken).1 := by
    unfold completeHumanGateResolution
    split
    · exact ⟨rfl, Kept.refl db⟩
    · split_ifs
      · exact ⟨rfl, Kept.refl db⟩
      · exact ⟨rfl, Kept.refl db⟩
      · exact ⟨rfl, Kept.refl db⟩
      · exact ⟨rfl, rfl, rfl⟩
  exact keeps_of_gates hframe.1 (fun _ => hframe.2) hgates

theorem keeps_reopenHumanGateResolution (db : Db) (gateJobId : ℕ) (leaseToken : Option ℕ) :
    Keeps Eq db (reopenHumanGateResolution db gateJobId leaseToken) :=
  keeps_of_gates rfl (fun _ => ⟨rfl, rfl⟩)
    (gatesStep_reopenHumanGateResolution db gateJobId leaseToken).resolving

/-- Every operation of the queue but three keeps both facts; the three are a claim of a gate, a
claim of a merge and a hold. -/
theorem keeps_queueStep {db : Db} (hids : (db.workItems.map WorkItem.id).Nodup) (op : QueueOp)
    (hgate : ∀ clock gateJobId leaseToken action requestKey requireLease, op ≠
      .beginHumanGateResolution clock gateJobId leaseToken action requestKey requireLease)
    (hmerge : ∀ env clock workItemId expectedBranch, op ≠
      .authorizeWorkItemAutoMerge env clock workItemId expectedBranch)
    (hhold : ∀ workItemId, op ≠ .holdWorkItemForPendingMerge workItemId) :
    Keeps Holds db (queueStep db op) := by
  have hR := rowRelation_holds
  cases op with
  | authorizeWorkItemAutoMerge env clock workItemId expectedBranch =>
    exact absurd rfl (hmerge env clock workItemId expectedBranch)
  | releaseWorkItemAutoMergeAuthorization workItemId previous =>
    exact keeps_releaseWorkItemAutoMergeAuthorization db workItemId previous
  | beginHumanGateResolution clock gateJobId leaseToken action requestKey requireLease =>
    exact absurd rfl (hgate clock gateJobId leaseToken action requestKey requireLease)
  | completeHumanGateResolution clock gateJobId leaseToken =>
    exact (keeps_completeHumanGateResolution clock db gateJobId leaseToken).of_eq hR
  | reopenHumanGateResolution gateJobId leaseToken =>
    exact (keeps_reopenHumanGateResolution db gateJobId leaseToken).of_eq hR
  | createJob clock spec contract => exact (keeps_createJob clock db spec contract).of_eq hR
  | registerHumanGate gateJobId contract =>
    exact (keeps_registerHumanGate db gateJobId contract).of_eq hR
  | updateJobStatus clock jobId status options =>
    exact (keeps_updateJobStatus clock db jobId status options).of_eq hR
  | updateWorkItemStatus env clock workItemId status options =>
    exact keeps_updateWorkItemStatus env clock hids workItemId status options
  | refreshWorkItemStatus env clock workItemId =>
    exact keeps_refreshWorkItemStatus env clock hids workItemId
  | holdWorkItemForPendingMerge workItemId => exact absurd rfl (hhold workItemId)
  | requeueWorkItemAfterRejection env clock workItemId options =>
    exact keeps_requeueWorkItemAfterRejection env clock hids workItemId options
  | markWorkItemMergeFailed env clock workItemId spec =>
    exact keeps_markWorkItemMergeFailed env clock db workItemId spec

theorem beginHumanGateResolution_frame (clock : Clock) (db : Db) (gateJobId : ℕ)
    (leaseToken : Option ℕ) (action : String) (requestKey : Option String)
    (requireLease : Bool) :
    let db' := (beginHumanGateResolution clock db gateJobId leaseToken action requestKey
      requireLease).1
    db'.workItems = db.workItems ∧ db'.jobs = db.jobs := by
  unfold beginHumanGateResolution
  split
  · exact ⟨rfl, rfl⟩
  · split
    · exact ⟨rfl, rfl⟩
    · split
      · exact ⟨rfl, rfl⟩
      · dsimp only
        split
        · exact ⟨rfl, rfl⟩
        · exact ⟨rfl, rfl⟩

/-! ## 2. A merge that has landed -/

/-- Every transaction of the queue leaves merged work items merged. -/
theorem queueStep_holdsMerge {db : Db} (hids : (db.workItems.map WorkItem.id).Nodup)
    (op : QueueOp) : List.Forall₂ HoldsMerge db.workItems (queueStep db op).workItems := by
  have hsame : ∀ rows, rows = db.workItems → List.Forall₂ HoldsMerge db.workItems rows :=
    fun rows h => h ▸ List.forall₂_same.mpr fun wi _ => rowRelation_holdsMerge.refl wi
  by_cases hgate : ∀ clock gateJobId leaseToken action requestKey requireLease, op ≠
      .beginHumanGateResolution clock gateJobId leaseToken action requestKey requireLease
  · by_cases hmerge : ∀ env clock workItemId expectedBranch, op ≠
        .authorizeWorkItemAutoMerge env clock workItemId expectedBranch
    · by_cases hhold : ∀ workItemId, op ≠ .holdWorkItemForPendingMerge workItemId
      · exact (keeps_queueStep hids op hgate hmerge hhold).workItems.imp fun _ _ h => h.merge
      · push Not at hhold
        obtain ⟨workItemId, rfl⟩ := hhold
        exact (keeps_holdWorkItemForPendingMerge db workItemId).workItems
    · push Not at hmerge
      obtain ⟨env, clock, workItemId, expectedBranch, rfl⟩ := hmerge
      unfold queueStep
      dsimp only
      rcases authorizeWorkItemAutoMerge_cases env clock db workItemId expectedBranch with
        hkept | ⟨wi, -, -, -, -, hclaimed⟩
      · exact hsame _ hkept.workItems_eq
      · rw [hclaimed]
        refine Table.forall₂_updateWhere rowRelation_holdsMerge.refl (fun row _ hp => ?_)
        rw [Bool.and_eq_true, bne_iff_ne] at hp
        exact holdsMerge_of_unmerged rfl hp.2
  · push Not at hgate
    obtain ⟨clock, gateJobId, leaseToken, action, requestKey, requireLease, rfl⟩ := hgate
    exact hsame _ (beginHumanGateResolution_frame clock db gateJobId leaseToken action requestKey
      requireLease).1

/-- The work item of this id is merged and complete. -/
def IsMergedComplete (workItemId : ℕ) (db : Db) : Prop :=
  ∃ wi, db.getWorkItem workItemId = some wi ∧ wi.mergeState = some .merged ∧
    wi.status = .complete

theorem IsMergedComplete.step {workItemId : ℕ} {db : Db}
    (hids : (db.workItems.map WorkItem.id).Nodup) (h : IsMergedComplete workItemId db)
    (op : QueueOp) : IsMergedComplete workItemId (queueStep db op) := by
  obtain ⟨wi, hwi, hmerged, hcomplete⟩ := h
  have hrows := queueStep_holdsMerge hids op
  obtain ⟨wi', hwi', hholds⟩ := Table.lookup_forall₂ rowRelation_holdsMerge.id hrows hwi
  obtain ⟨hmerged', hcomplete'⟩ := hholds.merged hmerged
  exact ⟨wi', hwi', hmerged', hcomplete' hcomplete⟩

/-- **A merged work item is not demoted by the queue.**  Whatever the queue does to its jobs, its
gates and its status, in any order, a merged and complete work item is merged and complete
afterwards. -/
theorem merged_work_item_stays_merged {db : Db} (hids : (db.workItems.map WorkItem.id).Nodup)
    {workItemId : ℕ} {wi : WorkItem} (hwi : db.getWorkItem workItemId = some wi)
    (hmerged : wi.mergeState = some .merged) (hcomplete : wi.status = .complete)
    (ops : List QueueOp) :
    ∃ wi', (Runs.run queueStep db ops).getWorkItem workItemId = some wi' ∧
      wi'.mergeState = some .merged ∧ wi'.status = .complete := by
  have hrun : ((Runs.run queueStep db ops).workItems.map WorkItem.id).Nodup ∧
      IsMergedComplete workItemId (Runs.run queueStep db ops) := by
    have hstep : ∀ (d : Db) (op : QueueOp),
        (d.workItems.map WorkItem.id).Nodup ∧ IsMergedComplete workItemId d →
        ((queueStep d op).workItems.map WorkItem.id).Nodup ∧
          IsMergedComplete workItemId (queueStep d op) := by
      intro d op hd
      refine ⟨?_, hd.2.step hd.1 op⟩
      rw [Table.map_key_forall₂ rowRelation_holdsMerge.id (queueStep_holdsMerge hd.1 op)]
      exact hd.1
    exact Runs.run_invariant_of_forall hstep ⟨hids, wi, hwi, hmerged, hcomplete⟩
  exact hrun.2

/-- Work item 1 is merged; its job fails late, its status is refreshed, a rejection, a hold and a
failed merge are recorded, and it is asked to run again. -/
theorem merged_work_item_stays_merged_late_failure :
    let clock : Clock := { now := 0, leaseNow := 0, grace := 60 }
    let wi : WorkItem :=
      { id := 1, status := .complete, mergeState := some .merged, branchName := some "wi-1" }
    let job : Job := { id := 1, workItemId := some 1, jobType := .dev, status := .running }
    let db : Db := { workItems := [wi], jobs := [job] }
    let ops := [QueueOp.updateJobStatus clock 1 .failed { force := true },
      .refreshWorkItemStatus {} clock 1, .requeueWorkItemAfterRejection {} clock 1 {},
      .holdWorkItemForPendingMerge 1,
      .markWorkItemMergeFailed {} clock 1 ⟨{ workItemId := some 1, jobType := .humanInput }, none⟩,
      .updateWorkItemStatus {} clock 1 .running {}]
    ∃ wi', (Runs.run queueStep db ops).getWorkItem 1 = some wi' ∧
      wi'.mergeState = some .merged ∧ wi'.status = .complete := by
  intro clock wi job db ops
  have hids : (db.workItems.map WorkItem.id).Nodup := by decide
  have hwi : db.getWorkItem 1 = some wi := by decide
  exact merged_work_item_stays_merged hids hwi rfl rfl ops

/-! ## 3. The claim of an automatic merge -/

/-- A claimed work item is complete, and none of its gates is being resolved. -/
def ClaimsHold (db : Db) : Prop :=
  ∀ wi ∈ db.workItems, wi.mergeState = some .mergeAuthorized →
    wi.status = .complete ∧ hasResolvingGate db wi.id = false

instance (db : Db) : Decidable (ClaimsHold db) :=
  inferInstanceAs (Decidable (∀ wi ∈ db.workItems, _ → _))

/-- The two writers without a guard spare the claims: a hold does not meet a claimed work item
with a branch, and no claim is written past the checks of `authorizeWorkItemAutoMerge`. -/
def SparesClaims (db : Db) : MergeOp → Prop
  | .queue (.holdWorkItemForPendingMerge workItemId) =>
    ∀ wi ∈ db.getWorkItem workItemId, wi.mergeState = some .mergeAuthorized →
      wi.status = .complete → wi.branchName.all (· == "") = true
  | .setMergeState _ _ workItemId mergeState =>
    mergeState = some .mergeAuthorized → ∀ wi ∈ db.getWorkItem workItemId,
      wi.status = .complete ∧ hasResolvingGate db workItemId = false
  | _ => True

instance (db : Db) (op : MergeOp) : Decidable (SparesClaims db op) := by
  cases op with
  | queue op => cases op <;> unfold SparesClaims <;> infer_instance
  | _ => unfold SparesClaims; infer_instance

/-- The tables of the runs: keys are keys, and every claim holds. -/
structure MergeWellFormed (db : Db) : Prop where
  workItemIds : (db.workItems.map WorkItem.id).Nodup
  jobIds : (db.jobs.map Job.id).Nodup
  claims : ClaimsHold db

/-- What keeps claims keeps the tables well formed. -/
theorem MergeWellFormed.of_keeps {db db' : Db} (h : MergeWellFormed db)
    (hkeeps : Keeps HoldsClaim db db') : MergeWellFormed db' := by
  refine ⟨hkeeps.ids rowRelation_holdsClaim ▸ h.workItemIds, hkeeps.jobIds h.jobIds, ?_⟩
  intro wi' hwi' hclaimed'
  obtain ⟨wi, hwi, hholds⟩ := Table.exists_of_mem_forall₂ hkeeps.workItems hwi'
  obtain ⟨hclaimed, hcomplete⟩ := hholds.claimed hclaimed'
  obtain ⟨hstatus, hnone⟩ := h.claims wi hwi hclaimed
  refine ⟨hcomplete hstatus, ?_⟩
  rw [← Bool.not_eq_true]
  intro hresolving
  have hbefore := hkeeps.resolving h.jobIds wi'.id hresolving
  rw [hholds.id, hnone] at hbefore
  exact absurd hbefore (by simp)

/-- No gate of the work item is active, so none is being resolved. -/
theorem not_resolving_of_findMergeHoldingGate {env : WorkItemEnv} {db : Db} {workItemId : ℕ}
    (h : findMergeHoldingGate env db workItemId = false) :
    hasResolvingGate db workItemId = false := by
  rw [← Bool.not_eq_true]
  intro hresolving
  obtain ⟨gate, hgate, howner, hstate⟩ := hasResolvingGate_iff.mp hresolving
  obtain ⟨job, hjob, hwi⟩ := Option.bind_eq_some_iff.mp howner
  have hholds : holdsMerge env gate job = true := by
    simp [holdsMerge, HumanGate.isActive, activeGateStates, hstate]
  have hfound : findMergeHoldingGate env db workItemId = true := by
    refine List.any_eq_true.mpr ⟨gate, hgate, ?_⟩
    rw [hjob, Option.any_some, hwi, hholds]
    simp
  rw [h] at hfound
  exact absurd hfound (by simp)

/-- A write of the claim on one complete work item without a gate that is being resolved. -/
theorem MergeWellFormed.claim {db : Db} (h : MergeWellFormed db) {p : WorkItem → Bool}
    (hp : ∀ wi ∈ db.workItems, p wi = true →
      wi.status = .complete ∧ hasResolvingGate db wi.id = false) :
    MergeWellFormed (db.updateWorkItems p
      (fun wi => { wi with mergeState := some .mergeAuthorized })) := by
  refine ⟨?_, h.jobIds, fun wi hwi hclaimed => ?_⟩
  · have hids : (Table.updateWhere p (fun wi : WorkItem =>
        { wi with mergeState := some .mergeAuthorized }) db.workItems).map WorkItem.id =
          db.workItems.map WorkItem.id := Table.map_key_updateWhere (fun _ _ => rfl)
    exact hids ▸ h.workItemIds
  · rcases Table.mem_updateWhere_cases hwi with ⟨hmem, -⟩ | ⟨before, hmem, hpre, rfl⟩
    · exact h.claims wi hmem hclaimed
    · exact hp before hmem hpre

theorem MergeWellFormed.authorize {db : Db} (h : MergeWellFormed db) (env : WorkItemEnv)
    (clock : Clock) (workItemId : ℕ) (expectedBranch : Option String) :
    MergeWellFormed (authorizeWorkItemAutoMerge env clock db workItemId expectedBranch).1 := by
  rcases authorizeWorkItemAutoMerge_cases env clock db workItemId expectedBranch with
    hkept | ⟨wi, hwi, hcomplete, -, hgate, hclaimed⟩
  · exact h.of_keeps (hkept.of_eq rowRelation_holdsClaim)
  · rw [hclaimed]
    refine h.claim (fun row hrow hp => ?_)
    simp only [Bool.and_eq_true, beq_iff_eq] at hp
    refine ⟨hp.1.1.2, ?_⟩
    rw [hp.1.1.1]
    exact not_resolving_of_findMergeHoldingGate hgate

/-- A gate is claimed only where its work item is not. -/
theorem beginHumanGateResolution_unclaimed (clock : Clock) (db : Db) (gateJobId : ℕ)
    (leaseToken : Option ℕ) (action : String) (requestKey : Option String)
    (requireLease : Bool) :
    let db' := (beginHumanGateResolution clock db gateJobId leaseToken action requestKey
      requireLease).1
    db' = db ∨ ∃ gate gateJob action' key, gate.gateJobId = gateJobId ∧
      db.getJob gateJobId = some gateJob ∧
      (gateJob.workItemId.bind db.getWorkItem).any
        (fun wi => wi.mergeState == some .mergeAuthorized) = false ∧
      db' = claimHumanGate db gate action' key leaseToken := by
  unfold beginHumanGateResolution
  cases hgate : db.getHumanGate gateJobId with
  | none => exact Or.inl rfl
  | some gate =>
    have hid : gate.gateJobId = gateJobId := Table.lookup_key hgate
    dsimp only
    cases beginResolutionDecision gate action requestKey with
    | error refusal => exact Or.inl rfl
    | ok claim =>
      dsimp only
      split
      · exact Or.inl rfl
      · cases hcheck : checkClaim clock db gate leaseToken (humanGateIdempotencyKey gateJobId
            gate.generation (resolvedAction action) requestKey) requireLease with
        | error refusal => exact Or.inl rfl
        | ok checked =>
          unfold checkClaim at hcheck
          rw [hid] at hcheck
          cases hjob : db.getJob gateJobId with
          | none => simp [hjob] at hcheck
          | some gateJob =>
            rw [hjob] at hcheck
            dsimp only at hcheck
            by_cases hclaimed : (gateJob.workItemId.bind db.getWorkItem).any
                (fun wi => wi.mergeState == some .mergeAuthorized) = true
            · rw [if_pos hclaimed] at hcheck
              exact absurd hcheck (by simp)
            · exact Or.inr ⟨gate, gateJob, _, _, hid, rfl, Bool.not_eq_true _ ▸ hclaimed, rfl⟩

theorem MergeWellFormed.beginResolution {db : Db} (h : MergeWellFormed db) (clock : Clock)
    (gateJobId : ℕ) (leaseToken : Option ℕ) (action : String) (requestKey : Option String)
    (requireLease : Bool) :
    MergeWellFormed (beginHumanGateResolution clock db gateJobId leaseToken action requestKey
      requireLease).1 := by
  rcases beginHumanGateResolution_unclaimed clock db gateJobId leaseToken action requestKey
    requireLease with hsame | ⟨gate, gateJob, action', key, hid, hjob, hunclaimed, hclaimed⟩
  · rw [hsame]
    exact h
  · rw [hclaimed]
    refine ⟨h.workItemIds, h.jobIds, fun wi hwi hauthorized => ?_⟩
    obtain ⟨hcomplete, hnone⟩ := h.claims wi hwi hauthorized
    refine ⟨hcomplete, ?_⟩
    rw [← Bool.not_eq_true]
    intro hresolving
    obtain ⟨gate', hgate', howner, hstate⟩ := hasResolvingGate_iff.mp hresolving
    rcases Table.mem_updateWhere_cases hgate' with ⟨hmem, -⟩ | ⟨before, -, hp, rfl⟩
    · have hbefore : hasResolvingGate db wi.id = true :=
        hasResolvingGate_iff.mpr ⟨gate', hmem, howner, hstate⟩
      rw [hnone] at hbefore
      exact absurd hbefore (by simp)
    · -- the gate that was claimed would belong to the claimed work item
      rw [Bool.and_eq_true, Bool.and_eq_true, beq_iff_eq] at hp
      have hread : (db.getJob gateJobId).bind Job.workItemId = some wi.id := by
        rw [← hid, ← hp.1.1]
        exact howner
      rw [hjob, Option.bind_some] at hread
      have hwi' : db.getWorkItem wi.id = some wi := Table.lookup_of_mem h.workItemIds hwi
      rw [hread, Option.bind_some, hwi', Option.any_some, hauthorized] at hunclaimed
      exact absurd hunclaimed (by simp)

/-- A hold that spares the claims keeps them. -/
theorem keeps_hold_of_spares {db : Db} (hids : (db.workItems.map WorkItem.id).Nodup)
    {workItemId : ℕ}
    (hspares : SparesClaims db (.queue (.holdWorkItemForPendingMerge workItemId))) :
    Keeps HoldsClaim db (holdWorkItemForPendingMerge db workItemId).1 := by
  have hR := rowRelation_holdsClaim
  unfold holdWorkItemForPendingMerge
  cases hwi : db.getWorkItem workItemId with
  | none => exact Keeps.refl hR db
  | some wi =>
    dsimp only
    split_ifs with hskip hbranch
    · exact Keeps.refl hR db
    · exact Keeps.refl hR db
    · refine Keeps.trans hR (keeps_updateWorkItems hR (fun row hrow hp => ?_))
        ((keeps_notify _ _).of_eq hR)
      simp only [Bool.and_eq_true, beq_iff_eq] at hp
      have hsame : row = wi := eq_of_getWorkItem hids hwi hrow hp.1.1.1
      subst hsame
      exact holdsClaim_of_unclaimed rfl
        (fun hclaimed => hbranch (hspares row hwi hclaimed hp.1.1.2))

/-- Every step that spares the claims keeps the tables well formed. -/
theorem MergeWellFormed.step {db : Db} (h : MergeWellFormed db) {op : MergeOp}
    (hspares : SparesClaims db op) : MergeWellFormed (mergeStep db op) := by
  cases op with
  | queue op =>
    by_cases hgate : ∀ clock gateJobId leaseToken action requestKey requireLease, op ≠
        .beginHumanGateResolution clock gateJobId leaseToken action requestKey requireLease
    · by_cases hmerge : ∀ env clock workItemId expectedBranch, op ≠
          .authorizeWorkItemAutoMerge env clock workItemId expectedBranch
      · by_cases hhold : ∀ workItemId, op ≠ .holdWorkItemForPendingMerge workItemId
        · exact h.of_keeps ((keeps_queueStep h.workItemIds op hgate hmerge hhold).mono
            fun _ _ hrow => hrow.claim)
        · push Not at hhold
          obtain ⟨workItemId, rfl⟩ := hhold
          exact h.of_keeps (keeps_hold_of_spares h.workItemIds hspares)
      · push Not at hmerge
        obtain ⟨env, clock, workItemId, expectedBranch, rfl⟩ := hmerge
        exact h.authorize env clock workItemId expectedBranch
    · push Not at hgate
      obtain ⟨clock, gateJobId, leaseToken, action, requestKey, requireLease, rfl⟩ := hgate
      exact h.beginResolution clock gateJobId leaseToken action requestKey requireLease
  | reopenWorkItemForFollowUp workItemId status reason =>
    exact h.of_keeps (keeps_reopenWorkItemForFollowUp db workItemId status reason)
  | setMergeState env clock workItemId mergeState =>
    by_cases hclaim : mergeState = some .mergeAuthorized
    · subst hclaim
      -- nothing but the row is written
      refine h.claim (fun row hrow hp => ?_)
      have hid : row.id = workItemId := beq_iff_eq.mp hp
      have hread : db.getWorkItem workItemId = some row :=
        hid ▸ Table.lookup_of_mem h.workItemIds hrow
      exact hid ▸ hspares rfl row hread
    · exact h.of_keeps (keeps_setMergeState rowRelation_holdsClaim env clock db workItemId
        mergeState (fun _ _ _ => holdsClaim_of_unclaimed rfl hclaim))

/-- **The claim of an automatic merge is a linearization point**, in every run whose holds and
direct writes spare the claims: a work item that is claimed is complete, and none of its gates is
being resolved. -/
theorem merge_claim_holds {db : Db} (h : MergeWellFormed db) (ops : List MergeOp)
    (hspares : Runs.Meets mergeStep SparesClaims db ops) :
    ∀ wi ∈ (Runs.run mergeStep db ops).workItems, wi.mergeState = some .mergeAuthorized →
      wi.status = .complete ∧ ∀ gate ∈ (Runs.run mergeStep db ops).humanGates,
        gateWorkItem (Runs.run mergeStep db ops) gate = some wi.id →
          gate.gateState ≠ .resolving := by
  have hrun : MergeWellFormed (Runs.run mergeStep db ops) :=
    Runs.run_invariant (fun _ _ hdb hop => hdb.step hop) h hspares
  intro wi hwi hclaimed
  obtain ⟨hcomplete, hnone⟩ := hrun.claims wi hwi hclaimed
  refine ⟨hcomplete, fun gate hgate howner hstate => ?_⟩
  have hresolving : hasResolvingGate (Runs.run mergeStep db ops) wi.id = true :=
    hasResolvingGate_iff.mpr ⟨gate, hgate, howner, hstate⟩
  rw [hnone] at hresolving
  exact absurd hresolving (by simp)

/-- A complete work item with a branch is claimed; a gate is then opened for it, and its answer is
refused: the work item is still complete. -/
theorem merge_claim_holds_late_answer :
    let clock : Clock := { now := 0, leaseNow := 0, grace := 60 }
    let wi : WorkItem :=
      { id := 1, status := .complete, mergeState := some .pendingReview, branchName := some "wi-1" }
    let job : Job := { id := 1, workItemId := some 1, jobType := .dev, status := .succeeded }
    let db : Db := { workItems := [wi], jobs := [job] }
    let spec : JobSpec := { workItemId := some 1, jobType := .humanInput }
    let contract : GateContract :=
      { gateKind := "merge_verification_review", originalJobId := some 1,
        allowedSourceStates := [.succeeded], allowedActions := ["fail"] }
    let ops := [MergeOp.queue (.authorizeWorkItemAutoMerge {} clock 1 none),
      .queue (.createJob clock spec (some contract)),
      .queue (.beginHumanGateResolution clock 2 none "fail" none false)]
    ∃ wi' ∈ (Runs.run mergeStep db ops).workItems, wi'.mergeState = some .mergeAuthorized ∧
      wi'.status = .complete := by
  intro clock wi job db spec contract ops
  have hwf : MergeWellFormed db := ⟨by decide, by decide, by decide⟩
  obtain ⟨wi', hwi', hclaimed⟩ : ∃ wi' ∈ (Runs.run mergeStep db ops).workItems,
      wi'.mergeState = some .mergeAuthorized := by decide
  exact ⟨wi', hwi', hclaimed, (merge_claim_holds hwf ops (by decide) wi' hwi' hclaimed).1⟩

/-- **A hold takes a claimed work item back to review.**  The claim stays in its row, the work
item is no longer complete, and Git may be publishing its branch. -/
theorem merge_claim_lost_by_hold :
    let clock : Clock := { now := 0, leaseNow := 0, grace := 60 }
    let wi : WorkItem :=
      { id := 1, status := .complete, mergeState := some .pendingReview, branchName := some "wi-1" }
    let db : Db := { workItems := [wi] }
    let ops := [MergeOp.queue (.authorizeWorkItemAutoMerge {} clock 1 none),
      .queue (.holdWorkItemForPendingMerge 1)]
    ¬(∀ wi ∈ (Runs.run mergeStep db ops).workItems, wi.mergeState = some .mergeAuthorized →
      wi.status = .complete ∧ ∀ gate ∈ (Runs.run mergeStep db ops).humanGates,
        gateWorkItem (Runs.run mergeStep db ops) gate = some wi.id →
          gate.gateState ≠ .resolving) := by
  decide

end PosseClient
