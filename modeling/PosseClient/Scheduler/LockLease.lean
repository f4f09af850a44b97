/-
# Leases of the scheduler lock

`SchedulerLockLease.js` over the row of `scheduler_locks` that `locks.js` keeps: any number of
schedulers, each with an owner id of its own, acquire the row, take it over by force when its
heartbeat is old, renew it and release it.

* A call into the database is two steps, what is read before it and the statement: other schedulers
  and the clock may come in between.  `asked` is the time of the `Date.now()` that the texts of a
  statement are made of.
* A lease does nothing else during a call.  A statement that throws has changed nothing.
* The grants of a phase and its `owned` are read by no step.
-/
import Mathlib

namespace PosseClient

variable {O : Type*} [DecidableEq O]

/-! ## 1. The row -/

/-- The row of one lock. -/
structure SchedulerLockRow (O : Type*) where
  owner : O
  acquiredAt : ℕ
  expiresAt : ℕ
  deriving DecidableEq, Repr

/-- `FORCE_ACQUIRE_LIVENESS_SEC`, in milliseconds. -/
def forceAcquireLivenessMs : ℕ := 45000

namespace SchedulerLockRow

/-- `acquireSchedulerLock`: an expired row is deleted, and the row is inserted if none is left. -/
def acquire (now asked durationMs : ℕ) (o : O) (row : Option (SchedulerLockRow O)) :
    Option (SchedulerLockRow O) :=
  match row.filter fun r => decide (now ≤ r.expiresAt) with
  | some _ => none
  | none => some ⟨o, now, asked + durationMs⟩

/-- `forceAcquireSchedulerLock`: the row is inserted, or taken over from its owner when that is the
caller or its heartbeat is old. -/
def forceAcquire (now asked durationMs : ℕ) (o : O) (row : Option (SchedulerLockRow O)) :
    Option (SchedulerLockRow O) :=
  match row with
  | none => some ⟨o, now, asked + durationMs⟩
  | some r =>
    if r.owner = o ∨ r.acquiredAt + forceAcquireLivenessMs ≤ asked then
      some ⟨o, now, asked + durationMs⟩
    else none

/-- `renewSchedulerLock`: the row with its new dates, if it is the owner's. -/
def renew (now asked durationMs : ℕ) (o : O) (row : Option (SchedulerLockRow O)) :
    Option (SchedulerLockRow O) :=
  (row.filter fun r => decide (r.owner = o)).map fun r =>
    { r with acquiredAt := now, expiresAt := asked + durationMs }

/-- `releaseSchedulerLock`. -/
def release (o : O) (row : Option (SchedulerLockRow O)) : Option (SchedulerLockRow O) :=
  row.filter fun r => decide (r.owner ≠ o)

end SchedulerLockRow

/-! ## 2. Leases -/

/-- The parameters of a lease, in milliseconds. -/
structure LeaseParams where
  durationMs : ℕ
  lockRenewalErrorMaxMs : ℕ
  deriving DecidableEq, Repr

/-- The parameters of `renewSec`, where no others are given. -/
def LeaseParams.ofRenewSec (renewSec : ℕ) : LeaseParams where
  durationMs := renewSec * 2 * 1000
  lockRenewalErrorMaxMs := max (renewSec * 1000) (renewSec * 2 * 1000 - renewSec * 1000 / 2)

/-- Where a lease is: in no call, between the row it was given and `markHeld`, or in the renewal
that has read the time `nowMs`. -/
inductive LeasePhase where
  | idle
  | granted (acquiredAt expiresAt : ℕ)
  | renewing (nowMs : ℕ) (owned : Bool)
  deriving DecidableEq, Repr

structure SchedulerLockLease where
  held : Bool := false
  lastRenewedAt : ℕ := 0
  renewalErrorCount : ℕ := 0
  renewalFirstErrorAt : ℕ := 0
  phase : LeasePhase := .idle
  deriving DecidableEq, Repr

/-- `markHeld`. -/
def SchedulerLockLease.markHeld (lease : SchedulerLockLease) (nowMs : ℕ) : SchedulerLockLease :=
  { lease with
    held := true, lastRenewedAt := nowMs, renewalErrorCount := 0, renewalFirstErrorAt := 0 }

/-- The `catch` of `renewNow`: the lease, and what the call returns. -/
def SchedulerLockLease.renewalErred (params : LeaseParams) (lease : SchedulerLockLease)
    (nowMs : ℕ) : SchedulerLockLease × Bool :=
  let firstErrorAt := if lease.renewalFirstErrorAt = 0 then nowMs else lease.renewalFirstErrorAt
  let lastGoodMs := if lease.lastRenewedAt = 0 then firstErrorAt else lease.lastRenewedAt
  let erred := { lease with
    renewalErrorCount := lease.renewalErrorCount + 1
    renewalFirstErrorAt := firstErrorAt
    phase := .idle }
  if params.lockRenewalErrorMaxMs ≤ nowMs - lastGoodMs then ({ erred with held := false }, false)
  else (erred, true)

/-- The end of `renewNow` after a statement that did not throw. -/
def SchedulerLockLease.renewalReturned (lease : SchedulerLockLease) (nowMs : ℕ)
    (renewed : Bool) : SchedulerLockLease × Bool :=
  if renewed then
    ({ lease with
       renewalErrorCount := 0, renewalFirstErrorAt := 0, lastRenewedAt := nowMs, phase := .idle },
      true)
  else ({ lease with held := false, phase := .idle }, false)

/-! ## 3. The schedulers of one database -/

structure LockWorldState (O : Type*) where
  now : ℕ
  row : Option (SchedulerLockRow O) := none
  leases : O → SchedulerLockLease := fun _ => {}

/-- What may happen next. -/
inductive LeaseEvent (O : Type*) where
  | tick (ms : ℕ)
  | acquire (o : O) (asked : ℕ)
  | forceAcquire (o : O) (asked : ℕ)
  | markHeld (o : O)
  | renewBegin (o : O)
  | renewEnd (o : O) (asked : ℕ) (throws : Bool)
  | release (o : O) (throws : Bool)
  deriving DecidableEq, Repr

namespace LockWorldState

variable (params : O → LeaseParams) (s : LockWorldState O)

def owns (o : O) : Bool := s.row.any fun r => decide (r.owner = o)

def setLease (o : O) (lease : SchedulerLockLease) : LockWorldState O :=
  { s with leases := Function.update s.leases o lease }

/-- A lease is given the row. -/
def grant (o : O) (row : SchedulerLockRow O) : LockWorldState O :=
  { s.setLease o { s.leases o with phase := .granted row.acquiredAt row.expiresAt } with
    row := some row }

/-- `acquire`, up to `markHeld`. -/
def acquire (o : O) (asked : ℕ) : LockWorldState O :=
  if (s.leases o).phase = .idle then
    match SchedulerLockRow.acquire s.now asked (params o).durationMs o s.row with
    | some row => s.grant o row
    | none => s
  else s

/-- `forceAcquire`, up to `markHeld`. -/
def forceAcquire (o : O) (asked : ℕ) : LockWorldState O :=
  if (s.leases o).phase = .idle then
    match SchedulerLockRow.forceAcquire s.now asked (params o).durationMs o s.row with
    | some row => s.grant o row
    | none => s
  else s

def markHeld (o : O) : LockWorldState O :=
  match (s.leases o).phase with
  | .granted _ _ => s.setLease o { (s.leases o).markHeld s.now with phase := .idle }
  | _ => s

/-- `renewNow` up to its statement; `adoptIfHeldByOwner` marks a lease whose owner has the row. -/
def renewBegin (o : O) : LockWorldState O :=
  if (s.leases o).phase = .idle then
    if (s.leases o).held then
      s.setLease o { s.leases o with phase := .renewing s.now (s.owns o) }
    else if s.owns o then
      s.setLease o { (s.leases o).markHeld s.now with phase := .renewing s.now (s.owns o) }
    else s
  else s

/-- The statement of `renewNow` and what follows, with what the call returns. -/
def renewEnd (o : O) (asked : ℕ) (throws : Bool) : LockWorldState O × Option Bool :=
  match (s.leases o).phase with
  | .renewing nowMs _ =>
    if throws then
      let result := (s.leases o).renewalErred (params o) nowMs
      (s.setLease o result.1, some result.2)
    else
      match SchedulerLockRow.renew s.now asked (params o).durationMs o s.row with
      | some row =>
        let result := (s.leases o).renewalReturned nowMs true
        ({ s.setLease o result.1 with row := some row }, some result.2)
      | none =>
        let result := (s.leases o).renewalReturned nowMs false
        (s.setLease o result.1, some result.2)
  | _ => (s, none)

def release (o : O) (throws : Bool) : LockWorldState O :=
  if (s.leases o).phase = .idle then
    { s.setLease o { s.leases o with held := false } with
      row := if throws then s.row else SchedulerLockRow.release o s.row }
  else s

end LockWorldState

def lockLeaseStep (params : O → LeaseParams) (s : LockWorldState O) :
    LeaseEvent O → LockWorldState O
  | .tick ms => { s with now := s.now + ms }
  | .acquire o asked => s.acquire params o asked
  | .forceAcquire o asked => s.forceAcquire params o asked
  | .markHeld o => s.markHeld o
  | .renewBegin o => s.renewBegin o
  | .renewEnd o asked throws => (s.renewEnd params o asked throws).1
  | .release o throws => s.release o throws

end PosseClient
