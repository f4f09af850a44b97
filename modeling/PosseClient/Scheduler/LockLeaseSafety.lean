/-
# Which scheduler may take itself for the owner

A lease gives up before its row can be taken from it: after `lockRenewalErrorMaxMs` without a
renewal, when the row has not expired and its heartbeat is not old enough to be taken by force.

* `LeaseInTime` is what the database and the event loop are asked for: statements that do not wait
  longer than the margin, and no adoption of a row nobody has renewed.
* `LeaseHolds` is the invariant of one lease, `lockLeaseStep_holds` its step lemma.
* `one_lease_in_window`, `renewNow_returns_true`: the results.
-/
import PosseClient.Lib.Runs
import PosseClient.Scheduler.LockLease

namespace PosseClient

open Runs

variable {O : Type*} [DecidableEq O] {params : O → LeaseParams} {s : LockWorldState O} {o o' : O}

/-! ## 1. The condition and the invariant -/

/-- A lease gives up before its row expires, and before it can be taken by force. -/
structure LeaseParams.Concedes (p : LeaseParams) : Prop where
  pos : 0 < p.lockRenewalErrorMaxMs
  before_expiry : p.lockRenewalErrorMaxMs ≤ p.durationMs
  before_force : p.lockRenewalErrorMaxMs ≤ forceAcquireLivenessMs

/-- The parameters of every renewal period of half a minute or less. -/
theorem LeaseParams.concedes_ofRenewSec {renewSec : ℕ} (hpos : 0 < renewSec)
    (hle : renewSec ≤ 30) : (LeaseParams.ofRenewSec renewSec).Concedes where
  pos := by simp only [ofRenewSec]; omega
  before_expiry := by simp only [ofRenewSec]; omega
  before_force := by simp only [ofRenewSec, forceAcquireLivenessMs]; omega

/-- The row that a lease was given or renewed at `at` outlasts its window. -/
def SchedulerLockRow.Outlasts (p : LeaseParams) (goodMs acquiredAt expiresAt : ℕ) : Prop :=
  goodMs + p.lockRenewalErrorMaxMs ≤ acquiredAt + forceAcquireLivenessMs ∧
    goodMs + p.lockRenewalErrorMaxMs ≤ expiresAt

instance (p : LeaseParams) (goodMs acquiredAt expiresAt : ℕ) :
    Decidable (SchedulerLockRow.Outlasts p goodMs acquiredAt expiresAt) := by
  unfold SchedulerLockRow.Outlasts
  infer_instance

/-- **Calls in time.**  Texts are made before their statement, and a grant is marked, within the
margin between the window and the row; a lease that is not held adopts no row. -/
def LeaseInTime (params : O → LeaseParams) (s : LockWorldState O) : LeaseEvent O → Prop
  | .acquire o asked | .forceAcquire o asked =>
    asked ≤ s.now ∧ s.now + (params o).lockRenewalErrorMaxMs ≤ asked + (params o).durationMs
  | .markHeld o =>
    match (s.leases o).phase with
    | .granted acquiredAt expiresAt =>
      SchedulerLockRow.Outlasts (params o) s.now acquiredAt expiresAt
    | _ => True
  | .renewBegin o => (s.leases o).held = true ∨ s.owns o = false
  | .renewEnd o asked _ =>
    match (s.leases o).phase with
    | .renewing nowMs _ => nowMs ≤ asked ∧ asked ≤ s.now
    | _ => True
  | _ => True

/-- The lease takes itself for the owner, and has not been without a renewal for too long. -/
def LockWorldState.InWindow (params : O → LeaseParams) (s : LockWorldState O) (o : O) : Prop :=
  (s.leases o).held = true ∧
    s.now < (s.leases o).lastRenewedAt + (params o).lockRenewalErrorMaxMs

/-- What the phase of a lease says about the row. -/
def PhaseHolds (params : O → LeaseParams) (s : LockWorldState O) (o : O) : Prop :=
  match (s.leases o).phase with
  | .idle => True
  | .granted acquiredAt expiresAt =>
    acquiredAt ≤ s.now ∧
      (s.now < acquiredAt + forceAcquireLivenessMs → s.now ≤ expiresAt →
        s.row = some ⟨o, acquiredAt, expiresAt⟩)
  | .renewing nowMs owned =>
    (s.leases o).held = true ∧ 0 < nowMs ∧ nowMs ≤ s.now ∧
      (nowMs < (s.leases o).lastRenewedAt + (params o).lockRenewalErrorMaxMs → owned = true)

/-- **What holds of one lease.** -/
structure LeaseHolds (params : O → LeaseParams) (s : LockWorldState O) (o : O) : Prop where
  now_pos : 0 < s.now
  renewed : (s.leases o).held = true →
    0 < (s.leases o).lastRenewedAt ∧ (s.leases o).lastRenewedAt ≤ s.now
  row : s.InWindow params o → ∃ r, s.row = some r ∧ r.owner = o ∧
    SchedulerLockRow.Outlasts (params o) (s.leases o).lastRenewedAt r.acquiredAt r.expiresAt
  phase : PhaseHolds params s o

theorem LeaseHolds.owns (h : LeaseHolds params s o) (hin : s.InWindow params o) :
    s.owns o = true := by
  obtain ⟨r, hr, rfl, -⟩ := h.row hin
  simp [LockWorldState.owns, hr]

/-! ## 2. What another lease does -/

/-- Whose call an event is. -/
def LeaseEvent.lease : LeaseEvent O → Option O
  | .tick _ => none
  | .acquire o _ | .forceAcquire o _ | .markHeld o | .renewBegin o | .renewEnd o _ _
  | .release o _ => some o

/-- The row may be taken from its owner by `o`: it is its own, it has expired, or its heartbeat is
old. -/
def LockWorldState.Takeable (s : LockWorldState O) (o : O) (r : SchedulerLockRow O) : Prop :=
  r.owner = o ∨ r.expiresAt < s.now ∨ r.acquiredAt + forceAcquireLivenessMs ≤ s.now

@[simp] theorem LockWorldState.setLease_now (lease : SchedulerLockLease) :
    (s.setLease o lease).now = s.now := rfl

@[simp] theorem LockWorldState.setLease_row (lease : SchedulerLockLease) :
    (s.setLease o lease).row = s.row := rfl

@[simp] theorem LockWorldState.setLease_leases_self (lease : SchedulerLockLease) :
    (s.setLease o lease).leases o = lease := Function.update_self ..

theorem LockWorldState.setLease_leases_of_ne (h : o' ≠ o) (lease : SchedulerLockLease) :
    (s.setLease o lease).leases o' = s.leases o' := Function.update_of_ne h ..

/-- **A call for the row**: nothing, or the lease is given a row that it may take. -/
def LockWorldState.Grants (params : O → LeaseParams) (s s' : LockWorldState O) (o : O)
    (asked : ℕ) : Prop :=
  s' = s ∨ s' = s.grant o ⟨o, s.now, asked + (params o).durationMs⟩ ∧
    ∀ r, s.row = some r → s.Takeable o r

theorem LockWorldState.acquire_grants (params : O → LeaseParams) (s : LockWorldState O) (o : O)
    (asked : ℕ) : s.Grants params (s.acquire params o asked) o asked := by
  unfold acquire SchedulerLockRow.acquire
  split_ifs
  · cases hrow : s.row.filter fun r => decide (s.now ≤ r.expiresAt) with
    | some live => exact Or.inl rfl
    | none =>
      refine Or.inr ⟨rfl, fun r hr => Or.inr (Or.inl ?_)⟩
      rw [hr, Option.filter_eq_none_iff] at hrow
      simpa using hrow r rfl
  · exact Or.inl rfl

theorem LockWorldState.forceAcquire_grants (params : O → LeaseParams) {s : LockWorldState O} (o : O)
    {asked : ℕ} (hasked : asked ≤ s.now) :
    s.Grants params (s.forceAcquire params o asked) o asked := by
  unfold forceAcquire SchedulerLockRow.forceAcquire
  split_ifs
  · cases hrow : s.row with
    | none => exact Or.inr ⟨rfl, fun r hr => by cases hrow.symm.trans hr⟩
    | some r =>
      by_cases htake : r.owner = o ∨ r.acquiredAt + forceAcquireLivenessMs ≤ asked
      · simp only [if_pos htake]
        refine Or.inr ⟨rfl, fun r' hr' => ?_⟩
        obtain rfl := Option.some.inj (hrow.symm.trans hr')
        exact htake.imp_right fun hold => Or.inr (hold.trans hasked)
      · simp only [if_neg htake]
        exact Or.inl rfl
  · exact Or.inl rfl

theorem SchedulerLockRow.renew_some {asked durationMs : ℕ} {row' : SchedulerLockRow O}
    (h : SchedulerLockRow.renew s.now asked durationMs o s.row = some row') :
    (∃ r, s.row = some r ∧ r.owner = o) ∧ row' = ⟨o, s.now, asked + durationMs⟩ := by
  unfold SchedulerLockRow.renew at h
  obtain ⟨r, hr, rfl⟩ := Option.map_eq_some_iff.mp h
  obtain ⟨hrow, hown⟩ := Option.filter_eq_some_iff.mp hr
  have hown : r.owner = o := by simpa using hown
  subst hown
  exact ⟨⟨r, hrow, rfl⟩, rfl⟩

theorem LockWorldState.Grants.other {s' : LockWorldState O} {asked : ℕ}
    (h : s.Grants params s' o' asked) (hne : o ≠ o') :
    s'.leases o = s.leases o ∧ s'.now = s.now ∧
      (s'.row = s.row ∨ ∀ r, s.row = some r → s.Takeable o' r) := by
  rcases h with rfl | ⟨rfl, htake⟩
  · exact ⟨rfl, rfl, Or.inl rfl⟩
  · exact ⟨LockWorldState.setLease_leases_of_ne hne _, rfl, Or.inr htake⟩

/-- **What the call of one lease leaves of another**: its record, the clock, and the row unless it
may be taken. -/
theorem lockLeaseStep_other {e : LeaseEvent O} (hin : LeaseInTime params s e)
    (he : e.lease = some o') (hne : o ≠ o') :
    (lockLeaseStep params s e).leases o = s.leases o ∧ (lockLeaseStep params s e).now = s.now ∧
      ((lockLeaseStep params s e).row = s.row ∨ ∀ r, s.row = some r → s.Takeable o' r) := by
  cases e with
  | tick ms => cases he
  | acquire p asked =>
    obtain rfl : p = o' := Option.some.inj he
    exact (LockWorldState.acquire_grants params s p asked).other hne
  | forceAcquire p asked =>
    obtain rfl : p = o' := Option.some.inj he
    exact (LockWorldState.forceAcquire_grants params p hin.1).other hne
  | markHeld p =>
    obtain rfl : p = o' := Option.some.inj he
    simp only [lockLeaseStep, LockWorldState.markHeld]
    split <;> exact ⟨by simp [LockWorldState.setLease_leases_of_ne hne], rfl, Or.inl rfl⟩
  | renewBegin p =>
    obtain rfl : p = o' := Option.some.inj he
    simp only [lockLeaseStep, LockWorldState.renewBegin]
    split_ifs <;> exact ⟨by simp [LockWorldState.setLease_leases_of_ne hne], rfl, Or.inl rfl⟩
  | renewEnd p asked throws =>
    obtain rfl : p = o' := Option.some.inj he
    simp only [lockLeaseStep, LockWorldState.renewEnd]
    split
    case h_2 => exact ⟨rfl, rfl, Or.inl rfl⟩
    case h_1 nowMs owned hphase =>
      split
      case isTrue => exact ⟨LockWorldState.setLease_leases_of_ne hne _, rfl, Or.inl rfl⟩
      case isFalse =>
        split
        case h_1 row hrow =>
          obtain ⟨⟨r, hr, hown⟩, -⟩ := SchedulerLockRow.renew_some hrow
          refine ⟨LockWorldState.setLease_leases_of_ne hne _, rfl, Or.inr fun r' hr' => ?_⟩
          rw [hr] at hr'
          exact Or.inl (Option.some.inj hr' ▸ hown)
        case h_2 => exact ⟨LockWorldState.setLease_leases_of_ne hne _, rfl, Or.inl rfl⟩
  | release p throws =>
    obtain rfl : p = o' := Option.some.inj he
    simp only [lockLeaseStep, LockWorldState.release]
    split
    case isFalse => exact ⟨rfl, rfl, Or.inl rfl⟩
    case isTrue =>
      refine ⟨LockWorldState.setLease_leases_of_ne hne _, rfl, ?_⟩
      cases throws with
      | true => exact Or.inl rfl
      | false =>
        by_cases hown : ∃ r, s.row = some r ∧ r.owner = p
        · obtain ⟨r, hr, hown⟩ := hown
          refine Or.inr fun r' hr' => ?_
          rw [hr] at hr'
          exact Or.inl (Option.some.inj hr' ▸ hown)
        · refine Or.inl ?_
          change SchedulerLockRow.release p s.row = s.row
          unfold SchedulerLockRow.release
          cases hrow : s.row with
          | none => rfl
          | some r => exact Option.filter_some_pos (by simpa using fun h => hown ⟨r, hrow, h⟩)

/-- What another lease leaves is enough. -/
theorem LeaseHolds.of_other {t : LockWorldState O} (h : LeaseHolds params s o)
    (hlease : t.leases o = s.leases o) (hnow : t.now = s.now) (hne : o ≠ o')
    (hrow : t.row = s.row ∨ ∀ r, s.row = some r → s.Takeable o' r) : LeaseHolds params t o := by
  have hkeep : ∀ r : SchedulerLockRow O, s.row = some r → r.owner = o → s.now ≤ r.expiresAt →
      s.now < r.acquiredAt + forceAcquireLivenessMs → t.row = some r := by
    intro r hr hown hexpires hfresh
    rcases hrow with hsame | htake
    · rw [hsame, hr]
    · rcases htake r hr with howner | hexpired | hold
      · exact absurd (hown.symm.trans howner) hne
      · omega
      · omega
  refine ⟨hnow ▸ h.now_pos, fun hheld => ?_, fun hin => ?_, ?_⟩
  · rw [hlease, hnow] at *
    exact h.renewed hheld
  · have hin' : s.InWindow params o := by
      unfold LockWorldState.InWindow at hin ⊢
      rwa [hlease, hnow] at hin
    obtain ⟨r, hr, hown, hout⟩ := h.row hin'
    have hwindow := hin'.2
    refine ⟨r, hkeep r hr hown ?_ ?_, hown, hlease ▸ hout⟩
    · have := hout.2
      omega
    · have := hout.1
      omega
  · have hphase := h.phase
    unfold PhaseHolds at hphase ⊢
    rw [hlease, hnow]
    cases hcase : (s.leases o).phase with
    | idle => trivial
    | granted acquiredAt expiresAt =>
      simp only [hcase] at hphase ⊢
      refine ⟨hphase.1, fun hfresh hexpires => ?_⟩
      exact hkeep _ (hphase.2 hfresh hexpires) rfl hexpires hfresh
    | renewing nowMs owned =>
      simp only [hcase] at hphase ⊢
      exact hphase

/-! ## 3. What a lease does itself -/

omit [DecidableEq O] in
theorem LeaseHolds.tick (h : LeaseHolds params s o) (ms : ℕ) :
    LeaseHolds params { s with now := s.now + ms } o where
  now_pos := Nat.add_pos_left h.now_pos ms
  renewed hheld := by
    obtain ⟨hpos, hle⟩ := h.renewed hheld
    exact ⟨hpos, hle.trans (Nat.le_add_right _ _)⟩
  row hin := by
    have hwindow := hin.2
    exact h.row ⟨hin.1, by simp only at hwindow; omega⟩
  phase := by
    have hphase := h.phase
    unfold PhaseHolds at hphase ⊢
    cases hcase : (s.leases o).phase with
    | idle => trivial
    | granted acquiredAt expiresAt =>
      simp only [hcase] at hphase ⊢
      refine ⟨by omega, fun hfresh hexpires => hphase.2 (by omega) (by omega)⟩
    | renewing nowMs owned =>
      simp only [hcase] at hphase ⊢
      exact ⟨hphase.1, hphase.2.1, by omega, hphase.2.2.2⟩

/-- A lease that is given the row. -/
theorem LeaseHolds.grant {t : LockWorldState O} (h : LeaseHolds params s o) {asked : ℕ}
    (hgrants : s.Grants params t o asked)
    (hin : s.now + (params o).lockRenewalErrorMaxMs ≤ asked + (params o).durationMs)
    (hconcedes : (params o).Concedes) : LeaseHolds params t o := by
  rcases hgrants with rfl | ⟨rfl, -⟩
  · exact h
  refine ⟨h.now_pos, fun hheld => ?_, fun hwindow => ?_, ?_⟩
  · simp only [LockWorldState.grant, LockWorldState.setLease_leases_self] at hheld ⊢
    exact h.renewed hheld
  · simp only [LockWorldState.InWindow, LockWorldState.grant,
      LockWorldState.setLease_leases_self] at hwindow ⊢
    have hle := (h.renewed hwindow.1).2
    have hforce := hconcedes.before_force
    exact ⟨_, rfl, rfl, by simp only; omega, by simp only; omega⟩
  · simp only [PhaseHolds, LockWorldState.grant, LockWorldState.setLease_leases_self]
    exact ⟨le_rfl, fun _ _ => trivial⟩

omit [DecidableEq O] in
/-- A lease that is not held, or whose window is not what it was. -/
theorem LeaseHolds.of_idle {t : LockWorldState O} (h : LeaseHolds params s o) (hnow : t.now = s.now)
    (hphase : (t.leases o).phase = .idle) (hheld : (t.leases o).held = false) :
    LeaseHolds params t o where
  now_pos := hnow ▸ h.now_pos
  renewed hheld' := by
    rw [hheld] at hheld'
    cases hheld'
  row hin := by
    rw [LockWorldState.InWindow, hheld] at hin
    cases hin.1
  phase := by
    unfold PhaseHolds
    rw [hphase]
    trivial

theorem LeaseHolds.markHeld (h : LeaseHolds params s o) (hconcedes : (params o).Concedes)
    (hin : LeaseInTime params s (.markHeld o)) : LeaseHolds params (s.markHeld o) o := by
  have hphase := h.phase
  unfold LockWorldState.markHeld
  unfold LeaseInTime at hin
  unfold PhaseHolds at hphase
  split
  case h_2 => exact h
  case h_1 acquiredAt expiresAt hcase =>
    simp only [hcase] at hin hphase
    have hpos := hconcedes.pos
    obtain ⟨hforce, hexpiry⟩ := hin
    refine ⟨h.now_pos, fun _ => ?_, fun _ => ?_, ?_⟩
    · simp only [LockWorldState.setLease_leases_self, SchedulerLockLease.markHeld]
      exact ⟨h.now_pos, le_rfl⟩
    · simp only [LockWorldState.setLease_leases_self, SchedulerLockLease.markHeld]
      exact ⟨_, hphase.2 (by omega) (by omega), rfl, hforce, hexpiry⟩
    · simp only [PhaseHolds, LockWorldState.setLease_leases_self]

theorem LeaseHolds.renewBegin (h : LeaseHolds params s o)
    (hin : LeaseInTime params s (.renewBegin o)) : LeaseHolds params (s.renewBegin o) o := by
  unfold LockWorldState.renewBegin
  by_cases hidle : (s.leases o).phase = .idle
  case neg =>
    rw [if_neg hidle]
    exact h
  case pos =>
    rw [if_pos hidle]
    by_cases hheld : (s.leases o).held = true
    case pos =>
      rw [if_pos hheld]
      have hsame : LockWorldState.InWindow params (s.setLease o
          { s.leases o with phase := .renewing s.now (s.owns o) }) o ↔ s.InWindow params o := by
        simp only [LockWorldState.InWindow, LockWorldState.setLease_leases_self,
          LockWorldState.setLease_now]
      refine ⟨h.now_pos, fun _ => ?_, fun hwindow => ?_, ?_⟩
      · simp only [LockWorldState.setLease_leases_self]
        exact h.renewed hheld
      · simp only [LockWorldState.setLease_leases_self]
        exact h.row (hsame.mp hwindow)
      · simp only [PhaseHolds, LockWorldState.setLease_leases_self]
        exact ⟨hheld, h.now_pos, le_rfl, fun hwindow => h.owns ⟨hheld, hwindow⟩⟩
    case neg =>
      rw [if_neg hheld]
      rcases hin with hin | hnot
      · exact absurd hin hheld
      · rw [if_neg (by rw [hnot]; exact Bool.false_ne_true)]
        exact h

/-- What a renewal that throws leaves: the lease is lost, or it is in its window. -/
theorem SchedulerLockLease.renewalErred_cases {p : LeaseParams} {lease : SchedulerLockLease}
    (hgood : 0 < lease.lastRenewedAt) (nowMs : ℕ) :
    (lease.renewalErred p nowMs).1.phase = .idle ∧
      ((lease.renewalErred p nowMs).2 = false ∧ (lease.renewalErred p nowMs).1.held = false ∨
        nowMs < lease.lastRenewedAt + p.lockRenewalErrorMaxMs ∧
          (lease.renewalErred p nowMs).1.held = lease.held ∧
          (lease.renewalErred p nowMs).1.lastRenewedAt = lease.lastRenewedAt) := by
  unfold renewalErred
  by_cases hlate : p.lockRenewalErrorMaxMs ≤ nowMs - lease.lastRenewedAt
  · simp [hgood.ne', hlate]
  · simp only [if_neg hgood.ne', if_neg hlate]
    exact ⟨trivial, Or.inr ⟨by omega, trivial, trivial⟩⟩

theorem LeaseHolds.renewEnd (h : LeaseHolds params s o) (hconcedes : (params o).Concedes)
    {asked : ℕ} {throws : Bool} (hin : LeaseInTime params s (.renewEnd o asked throws)) :
    LeaseHolds params (s.renewEnd params o asked throws).1 o := by
  have hphase := h.phase
  unfold LockWorldState.renewEnd
  unfold LeaseInTime at hin
  unfold PhaseHolds at hphase
  split
  case h_2 => exact h
  case h_1 nowMs owned hcase =>
    simp only [hcase] at hin hphase
    obtain ⟨hheld, hpos, hle, howned⟩ := hphase
    have hforce := hconcedes.before_force
    have hexpiry := hconcedes.before_expiry
    by_cases hthrows : throws = true
    case pos =>
      rw [if_pos hthrows]
      obtain ⟨hidle, hlost | ⟨-, hsame, hgood⟩⟩ :=
        SchedulerLockLease.renewalErred_cases (p := params o) (h.renewed hheld).1 nowMs
      · exact h.of_idle rfl (by simpa using hidle) (by simpa using hlost.2)
      · refine ⟨h.now_pos, fun _ => ?_, fun hwindow => ?_, ?_⟩
        · simp only [LockWorldState.setLease_leases_self, LockWorldState.setLease_now, hgood]
          exact h.renewed hheld
        · simp only [LockWorldState.InWindow, LockWorldState.setLease_leases_self,
            LockWorldState.setLease_now, LockWorldState.setLease_row, hsame, hgood] at hwindow ⊢
          exact h.row hwindow
        · simp only [PhaseHolds, LockWorldState.setLease_leases_self, hidle]
    case neg =>
      rw [if_neg hthrows]
      split
      case h_2 =>
        exact h.of_idle rfl (by simp [SchedulerLockLease.renewalReturned])
          (by simp [SchedulerLockLease.renewalReturned])
      case h_1 row hrow =>
        obtain ⟨-, rfl⟩ := SchedulerLockRow.renew_some hrow
        refine ⟨h.now_pos, fun _ => ?_, fun _ => ?_, ?_⟩
        · simp only [LockWorldState.setLease_leases_self, SchedulerLockLease.renewalReturned,
            if_true]
          exact ⟨hpos, hle⟩
        · simp only [LockWorldState.setLease_leases_self, SchedulerLockLease.renewalReturned,
            if_true]
          exact ⟨_, rfl, rfl, by simp only; omega, by simp only; omega⟩
        · simp only [PhaseHolds, LockWorldState.setLease_leases_self,
            SchedulerLockLease.renewalReturned, if_true]

/-- **The step lemma**: what an event in time preserves, of every lease. -/
theorem lockLeaseStep_holds (hconcedes : ∀ o, (params o).Concedes) (s : LockWorldState O)
    (e : LeaseEvent O) (h : ∀ o, LeaseHolds params s o) (hin : LeaseInTime params s e) :
    ∀ o, LeaseHolds params (lockLeaseStep params s e) o := by
  intro o
  by_cases hother : ∃ o', e.lease = some o' ∧ o ≠ o'
  · obtain ⟨o', he, hne⟩ := hother
    obtain ⟨hlease, hnow, hrow⟩ := lockLeaseStep_other hin he hne
    exact (h o).of_other hlease hnow hne hrow
  · have hown : ∀ o', e.lease = some o' → o' = o := fun o' he =>
      Classical.byContradiction fun hne => hother ⟨o', he, Ne.symm hne⟩
    cases e with
    | tick ms => exact (h o).tick ms
    | acquire p asked =>
      obtain rfl := hown p rfl
      exact (h p).grant (LockWorldState.acquire_grants params s p asked) hin.2 (hconcedes p)
    | forceAcquire p asked =>
      obtain rfl := hown p rfl
      exact (h p).grant (LockWorldState.forceAcquire_grants params p hin.1) hin.2 (hconcedes p)
    | markHeld p =>
      obtain rfl := hown p rfl
      exact (h p).markHeld (hconcedes p) hin
    | renewBegin p =>
      obtain rfl := hown p rfl
      exact (h p).renewBegin hin
    | renewEnd p asked throws =>
      obtain rfl := hown p rfl
      exact (h p).renewEnd (hconcedes p) hin
    | release p throws =>
      obtain rfl := hown p rfl
      simp only [lockLeaseStep, LockWorldState.release]
      split
      case isFalse => exact h p
      case isTrue hidle => exact (h p).of_idle rfl (by simp [hidle]) (by simp)

/-! ## 4. Every run -/

omit [DecidableEq O] in
theorem leaseHolds_start {start : ℕ} (hstart : 0 < start) (o : O) :
    LeaseHolds params { now := start } o where
  now_pos := hstart
  renewed h := nomatch h
  row h := nomatch h.1
  phase := trivial

/-- The schedulers of a new database, after the events. -/
def lockWorldAfter (params : O → LeaseParams) (start : ℕ) (events : List (LeaseEvent O)) :
    LockWorldState O :=
  run (lockLeaseStep params) { now := start } events

section Runs

variable {start : ℕ} {events : List (LeaseEvent O)}
  (hconcedes : ∀ o, (params o).Concedes) (hstart : 0 < start)
  (h : Meets (lockLeaseStep params) (LeaseInTime params) { now := start } events)
include hconcedes hstart h

theorem leaseHolds_run : ∀ o, LeaseHolds params (lockWorldAfter params start events) o := by
  have hstep := lockLeaseStep_holds hconcedes
  exact run_invariant hstep (leaseHolds_start hstart) h

/-- **One lease in its window.**  Whatever the schedulers do, in any order and with any errors of
the database: a lease that takes itself for the owner and has been renewed recently enough owns the
row, which has not expired and cannot be taken by force; so there is one at most. -/
theorem one_lease_in_window :
    (∀ o, (lockWorldAfter params start events).InWindow params o →
      ∃ r, (lockWorldAfter params start events).row = some r ∧ r.owner = o ∧
        (lockWorldAfter params start events).now < r.expiresAt ∧
        (lockWorldAfter params start events).now < r.acquiredAt + forceAcquireLivenessMs) ∧
    ∀ o o', (lockWorldAfter params start events).InWindow params o →
      (lockWorldAfter params start events).InWindow params o' → o = o' := by
  have hholds := leaseHolds_run hconcedes hstart h
  generalize lockWorldAfter params start events = s at hholds
  have hrow : ∀ o, s.InWindow params o → ∃ r, s.row = some r ∧ r.owner = o ∧
      s.now < r.expiresAt ∧ s.now < r.acquiredAt + forceAcquireLivenessMs := by
    intro o hin
    obtain ⟨r, hr, hown, hforce, hexpiry⟩ := (hholds o).row hin
    have hwindow := hin.2
    exact ⟨r, hr, hown, by omega, by omega⟩
  refine ⟨hrow, fun o o' ho ho' => ?_⟩
  obtain ⟨r, hr, rfl, -⟩ := hrow o ho
  obtain ⟨r', hr', rfl, -⟩ := hrow o' ho'
  rw [hr] at hr'
  rw [Option.some.inj hr']

/-- **A renewal that returns true.**  The row was the lease's own when the call began, or it is
now that the update has written it. -/
theorem renewNow_returns_true {o : O} {asked : ℕ} {throws : Bool}
    (htrue : ((lockWorldAfter params start events).renewEnd params o asked throws).2 = some true) :
    (throws = true ∧ ∃ nowMs,
      ((lockWorldAfter params start events).leases o).phase = .renewing nowMs true) ∨
    (throws = false ∧
      ((lockWorldAfter params start events).renewEnd params o asked throws).1.owns o = true) := by
  have hholds := leaseHolds_run hconcedes hstart h o
  generalize lockWorldAfter params start events = s at hholds htrue ⊢
  have hphase := hholds.phase
  unfold PhaseHolds at hphase
  unfold LockWorldState.renewEnd at htrue ⊢
  split at htrue
  case h_2 => cases htrue
  case h_1 nowMs owned hcase =>
    simp only [hcase] at hphase ⊢
    obtain ⟨hheld, hpos, -, howned⟩ := hphase
    by_cases hthrows : throws = true
    case pos =>
      refine Or.inl ⟨hthrows, nowMs, ?_⟩
      rw [if_pos hthrows] at htrue
      obtain ⟨-, hlost | ⟨hyoung, -⟩⟩ :=
        SchedulerLockLease.renewalErred_cases (p := params o) (hholds.renewed hheld).1 nowMs
      · simp only [hlost.1] at htrue
        cases htrue
      · rw [howned hyoung]
    case neg =>
      refine Or.inr ⟨by simpa using hthrows, ?_⟩
      rw [if_neg hthrows] at htrue ⊢
      split at htrue
      case h_2 => cases htrue
      case h_1 row hrow =>
        obtain ⟨-, rfl⟩ := SchedulerLockRow.renew_some hrow
        simp [LockWorldState.owns]

end Runs

instance decidableLeaseInTime (params : O → LeaseParams) (s : LockWorldState O) :
    ∀ e, Decidable (LeaseInTime params s e)
  | .tick _ => inferInstanceAs (Decidable True)
  | .acquire _ _ => inferInstanceAs (Decidable (_ ∧ _))
  | .forceAcquire _ _ => inferInstanceAs (Decidable (_ ∧ _))
  | .markHeld o =>
    match h : (s.leases o).phase with
    | .granted acquiredAt expiresAt =>
      decidable_of_iff (SchedulerLockRow.Outlasts (params o) s.now acquiredAt expiresAt)
        (by simp [LeaseInTime, h])
    | .idle => isTrue (by simp [LeaseInTime, h])
    | .renewing _ _ => isTrue (by simp [LeaseInTime, h])
  | .renewBegin _ => inferInstanceAs (Decidable (_ ∨ _))
  | .renewEnd o asked _ =>
    match h : (s.leases o).phase with
    | .renewing nowMs _ =>
      decidable_of_iff (nowMs ≤ asked ∧ asked ≤ s.now) (by simp [LeaseInTime, h])
    | .idle => isTrue (by simp [LeaseInTime, h])
    | .granted _ _ => isTrue (by simp [LeaseInTime, h])
  | .release _ _ => inferInstanceAs (Decidable True)

/-- The first scheduler cannot renew its row for too long and gives up; the second takes it. -/
def contestedEvents : List (LeaseEvent ℕ) :=
  [.acquire 0 1000, .markHeld 0, .renewBegin 0, .renewEnd 0 1000 false, .tick 30000,
    .renewBegin 0, .renewEnd 0 31000 true, .forceAcquire 1 31000, .tick 15000, .renewBegin 0,
    .tick 500, .renewEnd 0 46000 true, .forceAcquire 1 46500, .markHeld 1, .renewBegin 1,
    .renewEnd 1 46500 false]

theorem one_lease_in_window_contested :
    ∃ r, (lockWorldAfter (fun _ : ℕ => .ofRenewSec 30) 1000 contestedEvents).row = some r ∧
      r.owner = 1 ∧
      (lockWorldAfter (fun _ : ℕ => .ofRenewSec 30) 1000 contestedEvents).now < r.expiresAt ∧
      (lockWorldAfter (fun _ : ℕ => .ofRenewSec 30) 1000 contestedEvents).now <
        r.acquiredAt + forceAcquireLivenessMs :=
  (one_lease_in_window (fun _ => LeaseParams.concedes_ofRenewSec (by decide) (by decide))
    (by decide) (by decide)).1 1 ⟨by decide, by decide⟩

theorem renewNow_returns_true_contested :
    ∃ nowMs, ((lockWorldAfter (fun _ : ℕ => .ofRenewSec 30) 1000
      (contestedEvents.take 6)).leases 0).phase = .renewing nowMs true := by
  have hconcedes : ∀ _ : ℕ, (LeaseParams.ofRenewSec 30).Concedes := fun _ =>
    LeaseParams.concedes_ofRenewSec (by decide) (by decide)
  have hin : Meets (lockLeaseStep fun _ : ℕ => .ofRenewSec 30)
      (LeaseInTime fun _ => .ofRenewSec 30) { now := 1000 } (contestedEvents.take 6) := by decide
  have htrue : ((lockWorldAfter (fun _ : ℕ => .ofRenewSec 30) 1000
      (contestedEvents.take 6)).renewEnd (fun _ => .ofRenewSec 30) 0 31000 true).2 =
      some true := by decide
  rcases renewNow_returns_true hconcedes (by decide) hin htrue with ⟨-, h⟩ | ⟨h, -⟩
  · exact h
  · cases h

/-- **A row that is adopted.**  The lease has released it without reaching the database and finds
it again a second before it expires; its renewals throw, it goes on for its whole window, and
meanwhile another scheduler acquires the row. -/
theorem adopted_row_held_twice :
    (lockWorldAfter (fun _ : ℕ => .ofRenewSec 30) 1000
      [.acquire 0 1000, .markHeld 0, .release 0 true, .tick 59000, .renewBegin 0,
        .renewEnd 0 60000 true, .tick 2000, .acquire 1 62000, .markHeld 1]).InWindow
      (fun _ => .ofRenewSec 30) 0 ∧
    (lockWorldAfter (fun _ : ℕ => .ofRenewSec 30) 1000
      [.acquire 0 1000, .markHeld 0, .release 0 true, .tick 59000, .renewBegin 0,
        .renewEnd 0 60000 true, .tick 2000, .acquire 1 62000, .markHeld 1]).InWindow
      (fun _ => .ofRenewSec 30) 1 :=
  ⟨⟨by decide, by decide⟩, ⟨by decide, by decide⟩⟩

end PosseClient
