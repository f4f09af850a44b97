/-
# Deferrals for the claims of peers

`recordPeerClaimDeferral` of `cross-instance-claims.js`: how long a job has stood back for the
claims of other instances.

* `placeDeferral`: the row of a job and a claim, with the time at which the job first stood back.
* `recordPeerClaimDeferral`: one call, and whether the job stands back.
* `peer_deferral_bounded`: the clock of a job is never started again, and its wait is bounded.

Times are in milliseconds; what a call finds on the clock is its argument. Events are left out.
-/
import PosseClient.Lib.KeyedMap
import PosseClient.Lib.Runs

namespace PosseClient

open Table Runs KeyedMap

/-! ## 1. The table -/

/-- The members of a peer's claim that a deferral reads; `expiresAt` is `Date.parse` of the text. -/
structure DeferredClaim where
  claimKey : String
  instanceId : String := ""
  workItemId : ℕ := 0
  expiresAt : Option ℤ := none
  deriving DecidableEq, Repr

/-- `claimIdentity`: without the object id, which every renewal changes. -/
def claimIdentity (claim : DeferredClaim) : String :=
  claim.claimKey ++ ":" ++ claim.instanceId ++ ":" ++
    (if claim.workItemId = 0 then "" else toString claim.workItemId)

/-- A row of `shared_trunk_claim_deferrals`. -/
structure ClaimDeferral where
  jobId : ℕ
  workItemId : Option ℕ
  claimKey : String
  claimIdentity : String
  firstDeferredAt : ℤ
  lastDeferredAt : ℤ
  hardenedAt : Option ℤ := none
  deriving DecidableEq, Repr

/-- The primary key. -/
def ClaimDeferral.key (row : ClaimDeferral) : ℕ × String := (row.jobId, row.claimKey)

/-- What the dispatcher passes of a job; an id of 0 is none. -/
structure DeferredJob where
  id : ℕ
  workItemId : Option ℕ := none
  deriving DecidableEq, Repr

inductive DeferralResult
  | invalid
  | recorded (defer changed : Bool) (firstDeferredAt : ℤ)
  deriving DecidableEq, Repr

/-- The field `defer`. -/
def DeferralResult.defer : DeferralResult → Bool
  | .invalid => false
  | .recorded defer _ _ => defer

/-- `MIN(first_deferred_at)` over the rows of a job. -/
def jobFirstDeferredAt (rows : List ClaimDeferral) (jobId : ℕ) : Option ℤ :=
  ((select (fun row => decide (row.jobId = jobId)) rows).map (·.firstDeferredAt)).min?

/-! ## 2. A call -/

/-- The table with the row of the job and the claim, and what the call goes on with. -/
structure PlacedDeferral where
  rows : List ClaimDeferral
  firstDeferredAt : ℤ
  hardenedAt : Option ℤ
  changed : Bool

/-- The row of the job and the claim: touched where the same peer holds the claim, else written with
the first time that any row of the job has. -/
def placeDeferral (rows : List ClaimDeferral) (job : DeferredJob) (claim : DeferredClaim)
    (at' : ℤ) : PlacedDeferral :=
  let key := (job.id, claim.claimKey)
  let first := (jobFirstDeferredAt rows job.id).getD at'
  let written : PlacedDeferral :=
    { rows := put ClaimDeferral.key
        { jobId := job.id, workItemId := job.workItemId, claimKey := claim.claimKey,
          claimIdentity := claimIdentity claim, firstDeferredAt := first, lastDeferredAt := at' }
        rows
      firstDeferredAt := first, hardenedAt := none, changed := true }
  match lookup ClaimDeferral.key key rows with
  | none => written
  | some row =>
    if row.claimIdentity ≠ claimIdentity claim then written
    else
      { rows := updateWhere (fun row => decide (row.key = key))
          (fun row => { row with lastDeferredAt := at' }) rows
        firstDeferredAt := row.firstDeferredAt, hardenedAt := row.hardenedAt, changed := false }

/-- `recordPeerClaimDeferral`. -/
def recordPeerClaimDeferral (rows : List ClaimDeferral) (job : DeferredJob)
    (claim : Option DeferredClaim) (maxDeferMin : ℚ) (at' : ℤ) :
    List ClaimDeferral × DeferralResult :=
  match claim with
  | none => (rows, .invalid)
  | some claim =>
    if job.id = 0 ∨ claim.claimKey = "" then (rows, .invalid)
    else
      let placed := placeDeferral rows job claim at'
      let maxAgeMs := max 0 maxDeferMin * 60000
      let expired := match claim.expiresAt with
        | none => false
        | some expiresAt => decide (expiresAt ≤ at')
      let harden := placed.hardenedAt.isSome || expired ||
        decide (maxAgeMs ≤ ((at' - placed.firstDeferredAt : ℤ) : ℚ))
      if harden && placed.hardenedAt.isNone then
        (updateWhere (fun row => decide (row.key = (job.id, claim.claimKey)))
            (fun row => { row with hardenedAt := some at', lastDeferredAt := at' }) placed.rows,
          .recorded (!harden) true placed.firstDeferredAt)
      else (placed.rows, .recorded (!harden) placed.changed placed.firstDeferredAt)

/-- `clearPeerClaimDeferralsForJob`. -/
def clearPeerClaimDeferralsForJob (rows : List ClaimDeferral) (jobId : ℕ) : List ClaimDeferral :=
  deleteWhere (fun row => decide (row.jobId = jobId)) rows

/-! ## 3. Runs -/

inductive DeferralStep
  | record (job : DeferredJob) (claim : Option DeferredClaim) (maxDeferMin : ℚ) (at' : ℤ)
  | clear (jobId : ℕ)

def deferralStep (rows : List ClaimDeferral) : DeferralStep → List ClaimDeferral
  | .record job claim maxDeferMin at' => (recordPeerClaimDeferral rows job claim maxDeferMin at').1
  | .clear jobId => clearPeerClaimDeferralsForJob rows jobId

/-- The time of a call that stands a job back, as far as the step is one. -/
def DeferralStep.deferredAt (jobId : ℕ) : DeferralStep → Option ℤ
  | .record job (some claim) _ at' =>
    if job.id = jobId ∧ job.id ≠ 0 ∧ claim.claimKey ≠ "" then some at' else none
  | _ => none

/-- The time of the job's first deferral. -/
def firstDeferral (jobId : ℕ) (steps : List DeferralStep) : Option ℤ :=
  steps.findSome? (DeferralStep.deferredAt jobId)

/-! ## 4. The clock of a job -/

section Clock

variable {jobId : ℕ}

/-- **The clock of a job**: its rows have the time of its first deferral, and it has a row once it
stood back. -/
structure OneClock (jobId : ℕ) (first : Option ℤ) (rows : List ClaimDeferral) : Prop where
  rows_first : ∀ row ∈ rows, row.jobId = jobId → first = some row.firstDeferredAt
  has_row : first.isSome → ∃ row ∈ rows, row.jobId = jobId

/-- What the query for the first time of a job finds. -/
theorem OneClock.jobFirstDeferredAt_eq {first : Option ℤ} {rows : List ClaimDeferral}
    (h : OneClock jobId first rows) : jobFirstDeferredAt rows jobId = first := by
  unfold jobFirstDeferredAt
  have hmem : ∀ t ∈ (select (fun row => decide (row.jobId = jobId)) rows).map
      ClaimDeferral.firstDeferredAt, first = some t := by
    intro t ht
    obtain ⟨row, hrow, rfl⟩ := List.mem_map.mp ht
    rw [List.mem_filter, decide_eq_true_eq] at hrow
    exact h.rows_first row hrow.1 hrow.2
  cases first with
  | none =>
    rw [List.min?_eq_none_iff, List.eq_nil_iff_forall_not_mem]
    intro t ht
    cases hmem t ht
  | some t =>
    obtain ⟨row, hrow, hjob⟩ := h.has_row rfl
    have ht : row.firstDeferredAt = t := by
      have heq := h.rows_first row hrow hjob
      exact (Option.some.inj heq).symm
    rw [List.min?_eq_some_iff]
    constructor
    · rw [← ht]
      exact List.mem_map_of_mem (List.mem_filter.mpr ⟨hrow, decide_eq_true hjob⟩)
    · intro t' ht'
      rw [Option.some.inj (hmem t' ht')]

/-- Writing the other columns of rows keeps the clock. -/
theorem OneClock.updateWhere {first : Option ℤ} {rows : List ClaimDeferral}
    (h : OneClock jobId first rows) (p : ClaimDeferral → Bool) {f : ClaimDeferral → ClaimDeferral}
    (hjob : ∀ row, (f row).jobId = row.jobId)
    (hfirst : ∀ row, (f row).firstDeferredAt = row.firstDeferredAt) :
    OneClock jobId first (Table.updateWhere p f rows) := by
  constructor
  · intro row hrow hrowJob
    rcases mem_updateWhere_cases hrow with ⟨hold, _⟩ | ⟨old, hold, _, rfl⟩
    · exact h.rows_first row hold hrowJob
    · rw [hfirst]
      exact h.rows_first old hold ((hjob old).symm.trans hrowJob)
  · intro hsome
    obtain ⟨row, hrow, hrowJob⟩ := h.has_row hsome
    cases hp : p row with
    | true => exact ⟨f row, mem_updateWhere_of hrow hp, (hjob row).trans hrowJob⟩
    | false => exact ⟨row, mem_updateWhere_of_not hrow hp, hrowJob⟩

/-- **The row of the job and a claim** gets the time of the first deferral, which is now where there
was none. -/
theorem placeDeferral_clock {first : Option ℤ} {rows : List ClaimDeferral}
    (h : OneClock jobId first rows) {job : DeferredJob} (hjob : job.id = jobId)
    (claim : DeferredClaim) (at' : ℤ) :
    OneClock jobId (some (first.getD at')) (placeDeferral rows job claim at').rows ∧
      (placeDeferral rows job claim at').firstDeferredAt = first.getD at' := by
  have hfirst : jobFirstDeferredAt rows job.id = first := hjob ▸ h.jobFirstDeferredAt_eq
  have hwritten : ∀ row : ClaimDeferral, row.jobId = jobId →
      row.firstDeferredAt = first.getD at' →
        OneClock jobId (some (first.getD at')) (put ClaimDeferral.key row rows) := by
    intro row hrow hrowFirst
    constructor
    · intro other hother hotherJob
      rcases mem_put hother with rfl | hother
      · rw [hrowFirst]
      · have hold := h.rows_first other hother hotherJob
        rw [hold]
        rfl
    · exact fun _ => ⟨row, mem_put_self, hrow⟩
  unfold placeDeferral
  dsimp only
  rw [hfirst]
  split
  case h_1 => exact ⟨hwritten _ hjob rfl, rfl⟩
  case h_2 row hlookup =>
    split
    case isTrue => exact ⟨hwritten _ hjob rfl, rfl⟩
    case isFalse =>
      have hkey : row.key = (job.id, claim.claimKey) := lookup_key hlookup
      have hrowJob : row.jobId = jobId := (congrArg Prod.fst hkey).trans hjob
      have hold := h.rows_first row (lookup_mem hlookup) hrowJob
      rw [hold, Option.getD_some]
      refine ⟨?_, rfl⟩
      have hsame := h.updateWhere (fun row => decide (row.key = (job.id, claim.claimKey)))
        (f := fun row => { row with lastDeferredAt := at' }) (fun _ => rfl) (fun _ => rfl)
      rwa [hold] at hsame

/-- The row of another job leaves the clock as it is. -/
theorem placeDeferral_other {first : Option ℤ} {rows : List ClaimDeferral}
    (h : OneClock jobId first rows) {job : DeferredJob} (hjob : job.id ≠ jobId)
    (claim : DeferredClaim) (at' : ℤ) :
    OneClock jobId first (placeDeferral rows job claim at').rows := by
  have hwritten : ∀ row : ClaimDeferral, row.jobId ≠ jobId →
      OneClock jobId first (put ClaimDeferral.key row rows) := by
    intro row hrow
    constructor
    · intro other hother hotherJob
      rcases mem_put hother with rfl | hother
      · exact absurd hotherJob hrow
      · exact h.rows_first other hother hotherJob
    · intro hsome
      obtain ⟨old, hold, holdJob⟩ := h.has_row hsome
      refine ⟨old, mem_put_of_mem hold fun hkey => ?_, holdJob⟩
      exact hrow ((congrArg Prod.fst hkey).symm.trans holdJob)
  unfold placeDeferral
  dsimp only
  split
  case h_1 => exact hwritten _ hjob
  case h_2 =>
    split
    case isTrue => exact hwritten _ hjob
    case isFalse => exact h.updateWhere _ (fun _ => rfl) fun _ => rfl

/-- **A call** starts the clock of its job, where it does not run, and of no other. -/
theorem recordPeerClaimDeferral_clock {first : Option ℤ} {rows : List ClaimDeferral}
    (h : OneClock jobId first rows) (job : DeferredJob) (claim : Option DeferredClaim)
    (maxDeferMin : ℚ) (at' : ℤ) :
    OneClock jobId
      (first.or ((DeferralStep.record job claim maxDeferMin at').deferredAt jobId))
      (recordPeerClaimDeferral rows job claim maxDeferMin at').1 := by
  cases claim with
  | none =>
    have hnone : (DeferralStep.record job none maxDeferMin at').deferredAt jobId = none := rfl
    rw [hnone, Option.or_none]
    exact h
  | some claim =>
    rw [recordPeerClaimDeferral, DeferralStep.deferredAt]
    by_cases hinvalid : job.id = 0 ∨ claim.claimKey = ""
    · rw [if_pos hinvalid, if_neg fun hvalid => hinvalid.elim hvalid.2.1 hvalid.2.2,
        Option.or_none]
      exact h
    · rw [if_neg hinvalid]
      push Not at hinvalid
      have hplaced : OneClock jobId (first.or
          (if job.id = jobId ∧ job.id ≠ 0 ∧ claim.claimKey ≠ "" then some at' else none))
          (placeDeferral rows job claim at').rows := by
        by_cases hjob : job.id = jobId
        · rw [if_pos ⟨hjob, hinvalid⟩]
          have hclock := (placeDeferral_clock h hjob claim at').1
          cases first with
          | none => exact hclock
          | some t => exact hclock
        · rw [if_neg fun hvalid => hjob hvalid.1, Option.or_none]
          exact placeDeferral_other h hjob claim at'
      generalize first.or _ = after at hplaced ⊢
      dsimp only
      split_ifs
      · exact hplaced.updateWhere _ (fun _ => rfl) fun _ => rfl
      · exact hplaced

/-- **A call after the wait** does not stand back. -/
theorem recordPeerClaimDeferral_bounded {first : Option ℤ} {rows : List ClaimDeferral}
    (h : OneClock jobId first rows) {job : DeferredJob} (hjob : job.id = jobId)
    (claim : Option DeferredClaim) {maxDeferMin : ℚ} {at' : ℤ}
    (hwait : ∀ t, first.or ((DeferralStep.record job claim maxDeferMin at').deferredAt jobId) =
      some t → t ≤ at' ∧ maxDeferMin * 60000 ≤ ((at' - t : ℤ) : ℚ)) :
    (recordPeerClaimDeferral rows job claim maxDeferMin at').2.defer = false := by
  cases claim with
  | none => rfl
  | some claim =>
    rw [recordPeerClaimDeferral]
    split
    case isTrue => rfl
    case isFalse hinvalid =>
      push Not at hinvalid
      have hnow : first.or
          ((DeferralStep.record job (some claim) maxDeferMin at').deferredAt jobId) =
            some (first.getD at') := by
        rw [DeferralStep.deferredAt, if_pos ⟨hjob, hinvalid⟩]
        cases first <;> rfl
      obtain ⟨hlater, hmax⟩ := hwait _ hnow
      have hage : max 0 maxDeferMin * 60000 ≤ ((at' - first.getD at' : ℤ) : ℚ) := by
        have hnonneg : (0 : ℚ) ≤ ((at' - first.getD at' : ℤ) : ℚ) := by
          exact_mod_cast (by omega : (0 : ℤ) ≤ at' - first.getD at')
        rcases max_cases 0 maxDeferMin with ⟨hcase, _⟩ | ⟨hcase, _⟩
        · rw [hcase, zero_mul]
          exact hnonneg
        · rw [hcase]
          exact hmax
      have hfirst := (placeDeferral_clock h hjob claim at').2
      dsimp only
      rw [hfirst, decide_eq_true hage, Bool.or_true]
      split <;> rfl

theorem clearPeerClaimDeferralsForJob_other {first : Option ℤ} {rows : List ClaimDeferral}
    (h : OneClock jobId first rows) {other : ℕ} (hother : other ≠ jobId) :
    OneClock jobId first (clearPeerClaimDeferralsForJob rows other) := by
  constructor
  · intro row hrow hjob
    exact h.rows_first row (List.mem_of_mem_filter hrow) hjob
  · intro hsome
    obtain ⟨row, hrow, hjob⟩ := h.has_row hsome
    have hkept : (!decide (row.jobId = other)) = true := by
      rw [hjob, decide_eq_false (Ne.symm hother)]
      rfl
    exact ⟨row, List.mem_filter.mpr ⟨hrow, hkept⟩, hjob⟩

/-- A step other than a clear of the job. -/
theorem deferralStep_clock {first : Option ℤ} {rows : List ClaimDeferral}
    (h : OneClock jobId first rows) {step : DeferralStep} (hclear : step ≠ .clear jobId) :
    OneClock jobId (first.or (step.deferredAt jobId)) (deferralStep rows step) := by
  cases step with
  | record job claim maxDeferMin at' =>
    exact recordPeerClaimDeferral_clock h job claim maxDeferMin at'
  | clear other =>
    have hother : other ≠ jobId := by
      rintro rfl
      exact hclear rfl
    have hnone : (DeferralStep.clear other).deferredAt jobId = none := rfl
    rw [hnone, Option.or_none]
    exact clearPeerClaimDeferralsForJob_other h hother

theorem firstDeferral_append_cons (before after : List DeferralStep) (step : DeferralStep) :
    firstDeferral jobId (before ++ step :: after) =
      (firstDeferral jobId before).or
        ((step.deferredAt jobId).or (firstDeferral jobId after)) := by
  rw [firstDeferral, List.findSome?_append, List.findSome?_cons]
  cases step.deferredAt jobId <;> rfl

/-- **A run without a clear of the job** keeps its one clock. -/
theorem deferralSteps_clock : ∀ (steps : List DeferralStep) {first : Option ℤ}
    {rows : List ClaimDeferral}, OneClock jobId first rows → .clear jobId ∉ steps →
      OneClock jobId (first.or (firstDeferral jobId steps)) (steps.foldl deferralStep rows)
  | [], first, rows, h, _ => by
    rw [firstDeferral, List.findSome?_nil, Option.or_none]
    exact h
  | step :: steps, first, rows, h, hclear => by
    rw [List.mem_cons, not_or] at hclear
    have hstep := deferralStep_clock h (Ne.symm hclear.1)
    have hrun := deferralSteps_clock steps hstep hclear.2
    have hfirst : firstDeferral jobId (step :: steps) =
        (step.deferredAt jobId).or (firstDeferral jobId steps) :=
      firstDeferral_append_cons [] steps step
    rw [Option.or_assoc, ← hfirst] at hrun
    exact hrun

/-- **Deferral for peers is bounded**: whatever the conflicts of the calls, every row of the job has
the time of its first deferral, and a call that comes the wait after it does not stand back. -/
theorem peer_deferral_bounded (jobId : ℕ) (rows : List ClaimDeferral) (steps : List DeferralStep)
    (hfresh : ∀ row ∈ rows, row.jobId ≠ jobId) (hclear : .clear jobId ∉ steps) :
    (∀ row ∈ steps.foldl deferralStep rows, row.jobId = jobId →
      firstDeferral jobId steps = some row.firstDeferredAt) ∧
    ∀ before job claim maxDeferMin at' after first,
      steps = before ++ .record job claim maxDeferMin at' :: after → job.id = jobId →
      firstDeferral jobId steps = some first → first ≤ at' →
      maxDeferMin * 60000 ≤ ((at' - first : ℤ) : ℚ) →
      (recordPeerClaimDeferral (before.foldl deferralStep rows) job claim maxDeferMin
        at').2.defer = false := by
  have hstart : OneClock jobId none rows := by
    constructor
    · exact fun row hrow hjob => absurd hjob (hfresh row hrow)
    · exact fun hsome => absurd hsome Bool.false_ne_true
  constructor
  · have hrun := deferralSteps_clock steps hstart hclear
    rw [Option.none_or] at hrun
    exact hrun.rows_first
  · rintro before job claim maxDeferMin at' after first rfl hjob hfirst hlater hwait
    have hbefore : .clear jobId ∉ before := fun hmem => hclear (List.mem_append_left _ hmem)
    have hclock := deferralSteps_clock before hstart hbefore
    rw [Option.none_or] at hclock
    refine recordPeerClaimDeferral_bounded hclock hjob claim fun t ht => ?_
    have hsame : some first = some t := by
      rw [← hfirst, firstDeferral_append_cons, ← Option.or_assoc, ht]
      rfl
    cases hsame
    exact ⟨hlater, hwait⟩

/-- A peer hands its claim to another; the job keeps its clock and runs after the wait. -/
theorem peer_deferral_bounded_taken_over :
    (recordPeerClaimDeferral
      ([DeferralStep.record ⟨1, some 1⟩ (some { claimKey := "k", instanceId := "a" }) 1 0,
        .record ⟨1, some 1⟩ (some { claimKey := "k", instanceId := "b" }) 1 30000].foldl
          deferralStep [])
      ⟨1, some 1⟩ (some { claimKey := "k", instanceId := "c" }) 1 60000).2.defer = false := by
  refine (peer_deferral_bounded 1 [] [.record ⟨1, some 1⟩ (some ⟨"k", "a", 0, none⟩) 1 0,
    .record ⟨1, some 1⟩ (some ⟨"k", "b", 0, none⟩) 1 30000,
    .record ⟨1, some 1⟩ (some ⟨"k", "c", 0, none⟩) 1 60000] (by simp) (by simp)).2
    [.record ⟨1, some 1⟩ (some ⟨"k", "a", 0, none⟩) 1 0,
      .record ⟨1, some 1⟩ (some ⟨"k", "b", 0, none⟩) 1 30000]
    _ _ _ _ [] 0 rfl rfl rfl (by decide) ?_
  norm_num

end Clock

end PosseClient
