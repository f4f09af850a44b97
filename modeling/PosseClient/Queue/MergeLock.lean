/-
# The merge lock

`locks.js`: one row `merge` of `scheduler_locks` serialises the merges of one host.  A call of
`withMergeLock` acquires the row, runs its callback while a timer renews the row, checks that the
row is still its own and releases it.  The owner is `merge-<pid>`: the calls of a process share it.

* Each statement on the row is a step; so is each look at a process (`kill(pid, 0)`), which answers
  truthfully.  A process can exit at any time, and its pid can be given to another one.
* A callback takes any time; a renewal that fails with an error is a renewal that does not happen.
* `insertedBy` and `insertedAt` of the row, the step count and the two ledgers are read by no step.
-/
import Mathlib

namespace PosseClient

/-! ## 1. The row -/

/-- The row of the lock `merge`. -/
structure MergeLockRow where
  ownerId : String
  acquiredAt : ℕ
  expiresAt : ℕ
  insertedBy : ℕ
  insertedAt : ℕ
deriving DecidableEq, Repr

/-- `MERGE_LOCK_OWNER` of the process. -/
def mergeLockOwner (pid : ℕ) : String := "merge-" ++ toString pid

/-- The pid of `/^merge-(\d+)(?:$|[-:])/`. -/
def ownerPid (ownerId : String) : Option ℕ :=
  let cs := ownerId.toList
  let digits := (cs.drop 6).takeWhile Char.isDigit
  let rest := (cs.drop 6).dropWhile Char.isDigit
  if "merge-".toList.isPrefixOf cs ∧ digits ≠ [] ∧ (rest = [] ∨ rest.head? = some '-' ∨
      rest.head? = some ':') then
    some (Nat.ofDigitChars 10 digits 0)
  else none

/-- The pid of a default owner. -/
theorem ownerPid_mergeLockOwner (pid : ℕ) : ownerPid (mergeLockOwner pid) = some pid := by
  have hlist : (mergeLockOwner pid).toList = "merge-".toList ++ Nat.toDigits 10 pid := by
    rw [mergeLockOwner, String.toList_append, Nat.toString_eq_ofList_toDigits]
    simp only [String.toList_ofList]
  have hdigit : ∀ c ∈ Nat.toDigits 10 pid, c.isDigit = true := fun c hc =>
    Nat.isDigit_of_mem_toDigits (by decide) (by decide) hc
  have hdrop : (mergeLockOwner pid).toList.drop 6 = Nat.toDigits 10 pid := by
    rw [hlist]
    exact List.drop_left' rfl
  unfold ownerPid
  simp only [hdrop, List.takeWhile_eq_self_iff.mpr hdigit, List.dropWhile_eq_nil_iff.mpr hdigit]
  rw [if_pos, Nat.ofDigitChars_ten_toDigits]
  refine ⟨?_, Nat.toDigits_ne_nil, Or.inl trivial⟩
  rw [hlist, List.isPrefixOf_iff_prefix]
  exact List.prefix_append _ _

theorem mergeLockOwner_inj {p q : ℕ} (h : mergeLockOwner p = mergeLockOwner q) : p = q := by
  have hpid := congrArg ownerPid h
  rw [ownerPid_mergeLockOwner, ownerPid_mergeLockOwner] at hpid
  exact Option.some.inj hpid

/-- The row once an expired one is deleted: `expires_at < now`. -/
def unexpired (now : ℕ) (lock : Option MergeLockRow) : Option MergeLockRow :=
  lock.filter fun row => decide (now ≤ row.expiresAt)

/-- `acquireSchedulerLock`: the row of the caller, if no other one is in the way. -/
def acquireSchedulerLock (now : ℕ) (lock : Option MergeLockRow) (ownerId : String)
    (durationMs call step : ℕ) : Option MergeLockRow :=
  match unexpired now lock with
  | some _ => none
  | none => some ⟨ownerId, now, now + durationMs, call, step⟩

/-- `renewSchedulerLock`: the row, if it is the owner's, from now on. -/
def renewSchedulerLock (now : ℕ) (lock : Option MergeLockRow) (ownerId : String)
    (durationMs : ℕ) : Option MergeLockRow :=
  lock.map fun row =>
    if row.ownerId = ownerId then { row with expiresAt := now + durationMs, acquiredAt := now }
    else row

/-- `releaseSchedulerLock`: the row is deleted, if it is the owner's. -/
def releaseSchedulerLock (lock : Option MergeLockRow) (ownerId : String) : Option MergeLockRow :=
  lock.filter fun row => decide (row.ownerId ≠ ownerId)

/-- `mergeLockStillOwned`. -/
def mergeLockStillOwned (now : ℕ) (lock : Option MergeLockRow) (ownerId : String) : Bool :=
  lock.any fun row => decide (row.ownerId = ownerId ∧ now < row.expiresAt)

/-- The row has the three columns that were observed. -/
def MergeLockRow.sameLease (row observed : MergeLockRow) : Bool :=
  decide (row.ownerId = observed.ownerId ∧ row.acquiredAt = observed.acquiredAt ∧
    row.expiresAt = observed.expiresAt)

/-! ## 2. Processes and calls -/

structure MergeProcess where
  pid : ℕ
  startedAt : ℕ
  exitedAt : Option ℕ := none
deriving DecidableEq, Repr

/-- How far a call is.  `start` and `retry` are before the two acquisitions, `contended`,
`observed` and `doomed` between them; `holding` runs the callback, `finishing` is the `finally`. -/
inductive MergePhase
  | start
  | contended
  | observed (row : MergeLockRow)
  | doomed (row : MergeLockRow)
  | retry
  | holding (acquired : ℕ) (lockLost : Bool)
  | finishing (acquired : ℕ)
  | released
  | refused
deriving DecidableEq, Repr

structure MergeCall where
  process : ℕ
  isSync : Bool
  durationMs : ℕ
  phase : MergePhase := .start
deriving DecidableEq, Repr

/-- A call that returns `acquired: true`: the steps of its acquisition and of its check. -/
structure MergeReport where
  call : ℕ
  acquired : ℕ
  checked : ℕ
deriving DecidableEq, Repr

/-- A row deleted by a release or a reclamation: by which call, whose row, and whether that one
was still running. -/
structure MergeDeletion where
  deleter : ℕ
  inserter : ℕ
  inserterRuns : Bool
deriving DecidableEq, Repr

structure MergeHost where
  now : ℕ := 0
  step : ℕ := 0
  processes : List MergeProcess := []
  calls : ℕ → Option MergeCall := fun _ => none
  lock : Option MergeLockRow := none
  reports : List MergeReport := []
  deletions : List MergeDeletion := []

/-- The step of the acquisition of a call between its acquisition and its release. -/
def MergePhase.acquisition : MergePhase → Option ℕ
  | .holding acquired _ => some acquired
  | .finishing acquired => some acquired
  | _ => none

def MergePhase.isActive (phase : MergePhase) : Bool := phase.acquisition.isSome

/-- The process, while it lives. -/
def MergeHost.live (h : MergeHost) (process : ℕ) : Option MergeProcess :=
  h.processes[process]?.filter fun p => p.exitedAt.isNone

/-- `process.kill(pid, 0)`: a live process has the pid. -/
def MergeHost.pidLives (h : MergeHost) (pid : ℕ) : Bool :=
  h.processes.any fun p => decide (p.pid = pid ∧ p.exitedAt = none)

/-- A call of a live process, with the process. -/
def MergeHost.caller (h : MergeHost) (id : ℕ) : Option (MergeCall × MergeProcess) :=
  (h.calls id).bind fun c => (h.live c.process).map fun p => (c, p)

/-- The call has acquired the lock and not released it, and its process lives. -/
def MergeHost.isRunning (h : MergeHost) (id : ℕ) : Bool :=
  (h.caller id).any fun cp => cp.1.phase.isActive

/-! ## 3. Steps -/

inductive MergeLockOp
  | tick (ms : ℕ)
  | spawn (pid : ℕ)
  | exit (process : ℕ)
  | call (id process : ℕ) (isSync : Bool) (durationMs : ℕ)
  | acquire (id : ℕ)
  | observe (id : ℕ)
  | probe (id : ℕ)
  | reclaim (id : ℕ)
  | renew (id : ℕ)
  | check (id : ℕ)
  | throws (id : ℕ)
  | release (id : ℕ)
deriving DecidableEq, Repr

/-- The call goes on in another phase. -/
def MergeHost.setPhase (h : MergeHost) (id : ℕ) (c : MergeCall) (phase : MergePhase) : MergeHost :=
  { h with calls := Function.update h.calls id (some { c with phase := phase }) }

/-- A row is deleted by a call, and the deletion is written down. -/
def MergeHost.deleteRow (h : MergeHost) (id : ℕ) (row : MergeLockRow) : MergeHost :=
  { h with
    lock := none
    deletions := h.deletions ++ [⟨id, row.insertedBy, h.isRunning row.insertedBy⟩] }

/-- One acquisition of a call: the row, or the phase after the failure. -/
def MergeHost.tryAcquire (h : MergeHost) (id : ℕ) (c : MergeCall) (p : MergeProcess)
    (failed : MergePhase) : MergeHost :=
  match acquireSchedulerLock h.now h.lock (mergeLockOwner p.pid) c.durationMs id h.step with
  | some row => { h.setPhase id c (.holding h.step false) with lock := some row }
  | none => h.setPhase id c failed

/-- What a step does, the step count apart. -/
def mergeEffect (h : MergeHost) : MergeLockOp → MergeHost
  | .tick ms => { h with now := h.now + ms }
  | .spawn pid =>
    if pid = 0 ∨ h.pidLives pid then h
    else { h with processes := h.processes ++ [⟨pid, h.now, none⟩] }
  | .exit process =>
    match h.live process with
    | some p => { h with processes := h.processes.set process { p with exitedAt := some h.now } }
    | none => h
  | .call id process isSync durationMs =>
    match h.calls id, h.live process with
    | none, some _ =>
      { h with calls := Function.update h.calls id (some ⟨process, isSync, durationMs, .start⟩) }
    | _, _ => h
  | .acquire id =>
    match h.caller id with
    | some (c, p) =>
      match c.phase with
      | .start => h.tryAcquire id c p .contended
      | .retry => h.tryAcquire id c p .refused
      | _ => h
    | none => h
  | .observe id =>
    match h.caller id with
    | some (c, p) =>
      match c.phase, h.lock with
      | .contended, some row =>
        match ownerPid row.ownerId with
        | some heldPid =>
          if heldPid = 0 ∨ heldPid = p.pid then h.setPhase id c .refused
          else h.setPhase id c (.observed row)
        | none => h.setPhase id c .refused
      | .contended, none => h.setPhase id c .refused
      | _, _ => h
    | none => h
  | .probe id =>
    match h.caller id with
    | some (c, _) =>
      match c.phase with
      | .observed row =>
        if (ownerPid row.ownerId).any h.pidLives then h.setPhase id c .refused
        else h.setPhase id c (.doomed row)
      | _ => h
    | none => h
  | .reclaim id =>
    match h.caller id with
    | some (c, _) =>
      match c.phase with
      | .doomed observed =>
        match h.lock with
        | some row =>
          if row.sameLease observed then (h.setPhase id c .retry).deleteRow id row
          else h.setPhase id c .retry
        | none => h.setPhase id c .retry
      | _ => h
    | none => h
  | .renew id =>
    match h.caller id with
    | some (c, p) =>
      match c.phase, c.isSync with
      | .holding acquired lockLost, false =>
        let owner := mergeLockOwner p.pid
        { h.setPhase id c (.holding acquired
            (lockLost || !h.lock.any fun row => decide (row.ownerId = owner))) with
          lock := renewSchedulerLock h.now h.lock owner c.durationMs }
      | _, _ => h
    | none => h
  | .check id =>
    match h.caller id with
    | some (c, p) =>
      match c.phase with
      | .holding acquired lockLost =>
        let h' := h.setPhase id c (.finishing acquired)
        if !lockLost && mergeLockStillOwned h.now h.lock (mergeLockOwner p.pid) then
          { h' with reports := h.reports ++ [⟨id, acquired, h.step⟩] }
        else h'
      | _ => h
    | none => h
  | .throws id =>
    match h.caller id with
    | some (c, _) =>
      match c.phase with
      | .holding acquired _ => h.setPhase id c (.finishing acquired)
      | _ => h
    | none => h
  | .release id =>
    match h.caller id with
    | some (c, p) =>
      match c.phase with
      | .finishing _ =>
        match h.lock with
        | some row =>
          if row.ownerId = mergeLockOwner p.pid then (h.setPhase id c .released).deleteRow id row
          else h.setPhase id c .released
        | none => h.setPhase id c .released
      | _ => h
    | none => h

/-- One step of the host. -/
def mergeLockStep (h : MergeHost) (op : MergeLockOp) : MergeHost :=
  { mergeEffect h op with step := h.step + 1 }

end PosseClient
