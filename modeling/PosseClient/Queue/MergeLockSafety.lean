/-
# When merges that report success do not overlap

The owner string is one for all calls of a process.  As long as no call acquires the lock while
another call of its process is between its own acquisition and its release, the owner string names
one call: the row a call finds at its check and at its release is the one it has inserted.  Then the
row is there from the acquisition of a successful call to its check, and there is one row.

* `MergeChange` is the list of what a step can do; `mergeEffect_change` is the only place where a
  step is unfolded.
* `Clocked` is about processes and dates, `Held` about the row and its owner, `Ledgers` about what
  was reported and deleted.
* `OwnerFree` is the condition; `merges_overlap` is what happens without it.
-/
import PosseClient.Lib.Runs
import PosseClient.Queue.MergeLock

namespace PosseClient

/-! ## 1. Calls and their processes -/

section Callers

variable {h : MergeHost} {id id' i : ℕ} {c c' : MergeCall} {p p' : MergeProcess}
  {phase : MergePhase}

theorem MergeHost.live_some : h.live i = some p ↔ h.processes[i]? = some p ∧ p.exitedAt = none := by
  simp [MergeHost.live, Option.filter_eq_some_iff]

theorem MergeHost.caller_some :
    h.caller id = some (c, p) ↔ h.calls id = some c ∧ h.live c.process = some p := by
  simp only [MergeHost.caller, Option.bind_eq_some_iff, Option.map_eq_some_iff, Prod.mk.injEq]
  constructor
  · rintro ⟨c₀, hc, p₀, hp, rfl, rfl⟩
    exact ⟨hc, hp⟩
  · rintro ⟨hc, hp⟩
    exact ⟨c, hc, p, hp, rfl, rfl⟩

theorem MergeHost.isRunning_iff : h.isRunning id = true ↔
    ∃ c p, h.caller id = some (c, p) ∧ c.phase.isActive = true := by
  simp only [MergeHost.isRunning, Option.any_eq_true, Prod.exists]

@[simp] theorem MergeHost.calls_setPhase_self :
    (h.setPhase id c phase).calls id = some { c with phase := phase } :=
  Function.update_self ..

theorem MergeHost.calls_setPhase_of_ne (hne : id' ≠ id) :
    (h.setPhase id c phase).calls id' = h.calls id' :=
  Function.update_of_ne hne ..

/-- The calls after a change of phase: the one that changed, or one there was. -/
theorem MergeHost.calls_setPhase_cases (hc : (h.setPhase id c phase).calls id' = some c') :
    (id' = id ∧ c' = { c with phase := phase }) ∨ (id' ≠ id ∧ h.calls id' = some c') := by
  by_cases hid : id' = id
  · subst hid
    rw [MergeHost.calls_setPhase_self] at hc
    exact Or.inl ⟨rfl, (Option.some.inj hc).symm⟩
  · rw [MergeHost.calls_setPhase_of_ne hid] at hc
    exact Or.inr ⟨hid, hc⟩

end Callers

/-! ## 2. The condition, and what a step can do -/

/-- **The condition on a step.**  A call that is about to acquire the lock is the only one of its
process between acquisition and release; and a pid comes again only after the millisecond in which
the last process that had it exited. -/
def OwnerFree (h : MergeHost) : MergeLockOp → Prop
  | .acquire id => ∀ c p, h.caller id = some (c, p) →
      (acquireSchedulerLock h.now h.lock (mergeLockOwner p.pid) c.durationMs id h.step).isSome →
      ∀ id', id' ≠ id → ∀ c' p', h.caller id' = some (c', p') →
        c'.phase.isActive = true → c'.process ≠ c.process
  | .spawn pid => ∀ p ∈ h.processes, p.pid = pid → ∀ t, p.exitedAt = some t → t < h.now
  | _ => True

/-- What a step can do, the step count apart. -/
inductive MergeChange (h : MergeHost) : MergeHost → Prop
  | idle : MergeChange h h
  | tick (ms : ℕ) : MergeChange h { h with now := h.now + ms }
  | spawn (pid : ℕ) (hpid : h.pidLives pid = false)
      (hold : ∀ p ∈ h.processes, p.pid = pid → ∀ t, p.exitedAt = some t → t < h.now) :
      MergeChange h { h with processes := h.processes ++ [⟨pid, h.now, none⟩] }
  | exit (i : ℕ) (p : MergeProcess) (hp : h.live i = some p) :
      MergeChange h { h with processes := h.processes.set i { p with exitedAt := some h.now } }
  | call (id : ℕ) (c : MergeCall) (p : MergeProcess) (hnone : h.calls id = none)
      (hp : h.live c.process = some p) (hphase : c.phase = .start) :
      MergeChange h { h with calls := Function.update h.calls id (some c) }
  /-- A call that does not hold the lock goes on; what it observes is the row, and it dooms a row
  whose pid no live process has. -/
  | quiet (id : ℕ) (c : MergeCall) (p : MergeProcess) (phase : MergePhase)
      (hc : h.caller id = some (c, p)) (hbefore : c.phase.isActive = false)
      (hafter : phase.isActive = false)
      (hobserved : ∀ row, phase = .observed row → h.lock = some row)
      (hdoomed : ∀ row, phase = .doomed row → c.phase = .observed row ∧
        ∀ q, ownerPid row.ownerId = some q → h.pidLives q = false) :
      MergeChange h (h.setPhase id c phase)
  | grant (id : ℕ) (c : MergeCall) (p : MergeProcess) (hc : h.caller id = some (c, p))
      (hbefore : c.phase.isActive = false)
      (hfree : ∀ id', id' ≠ id → ∀ c' p', h.caller id' = some (c', p') →
        c'.phase.isActive = true → c'.process ≠ c.process) :
      MergeChange h { h.setPhase id c (.holding h.step false) with
        lock := some ⟨mergeLockOwner p.pid, h.now, h.now + c.durationMs, id, h.step⟩ }
  | renew (id : ℕ) (c : MergeCall) (p : MergeProcess) (acquired : ℕ) (lost lost' : Bool)
      (hc : h.caller id = some (c, p)) (hphase : c.phase = .holding acquired lost) :
      MergeChange h { h.setPhase id c (.holding acquired lost') with
        lock := renewSchedulerLock h.now h.lock (mergeLockOwner p.pid) c.durationMs }
  | finish (id : ℕ) (c : MergeCall) (p : MergeProcess) (acquired : ℕ) (lost : Bool)
      (hc : h.caller id = some (c, p)) (hphase : c.phase = .holding acquired lost) :
      MergeChange h (h.setPhase id c (.finishing acquired))
  | report (id : ℕ) (c : MergeCall) (p : MergeProcess) (acquired : ℕ) (row : MergeLockRow)
      (hc : h.caller id = some (c, p)) (hphase : c.phase = .holding acquired false)
      (hlock : h.lock = some row) (howner : row.ownerId = mergeLockOwner p.pid) :
      MergeChange h { h.setPhase id c (.finishing acquired) with
        reports := h.reports ++ [⟨id, acquired, h.step⟩] }
  | leave (id : ℕ) (c : MergeCall) (p : MergeProcess) (acquired : ℕ)
      (hc : h.caller id = some (c, p)) (hphase : c.phase = .finishing acquired)
      (hother : ∀ row, h.lock = some row → row.ownerId ≠ mergeLockOwner p.pid) :
      MergeChange h (h.setPhase id c .released)
  | release (id : ℕ) (c : MergeCall) (p : MergeProcess) (acquired : ℕ) (row : MergeLockRow)
      (hc : h.caller id = some (c, p)) (hphase : c.phase = .finishing acquired)
      (hlock : h.lock = some row) (howner : row.ownerId = mergeLockOwner p.pid) :
      MergeChange h ((h.setPhase id c .released).deleteRow id row)
  | reclaim (id : ℕ) (c : MergeCall) (p : MergeProcess) (observed row : MergeLockRow)
      (hc : h.caller id = some (c, p)) (hphase : c.phase = .doomed observed)
      (hlock : h.lock = some row) (hsame : row.sameLease observed = true) :
      MergeChange h ((h.setPhase id c .retry).deleteRow id row)

/-- An attempt to acquire the row. -/
theorem MergeChange.tryAcquire {h : MergeHost} {id : ℕ} {c : MergeCall} {p : MergeProcess}
    {failed : MergePhase} (hc : h.caller id = some (c, p)) (hbefore : c.phase.isActive = false)
    (hfailed : failed = .contended ∨ failed = .refused)
    (hfree : (acquireSchedulerLock h.now h.lock (mergeLockOwner p.pid) c.durationMs id
        h.step).isSome →
      ∀ id', id' ≠ id → ∀ c' p', h.caller id' = some (c', p') →
        c'.phase.isActive = true → c'.process ≠ c.process) :
    MergeChange h (h.tryAcquire id c p failed) := by
  unfold MergeHost.tryAcquire
  cases hrow : acquireSchedulerLock h.now h.lock (mergeLockOwner p.pid) c.durationMs id h.step with
  | none =>
    refine .quiet id c p failed hc hbefore ?_ ?_ ?_
    · rcases hfailed with rfl | rfl <;> rfl
    · rcases hfailed with rfl | rfl <;> simp
    · rcases hfailed with rfl | rfl <;> simp
  | some row =>
    have hvalue : row = ⟨mergeLockOwner p.pid, h.now, h.now + c.durationMs, id, h.step⟩ := by
      unfold acquireSchedulerLock at hrow
      split at hrow
      · cases hrow
      · exact (Option.some.inj hrow).symm
    subst hvalue
    exact .grant id c p hc hbefore (hfree (by rw [hrow]; rfl))

/-- **What a step does is one of the changes.** -/
theorem mergeEffect_change {h : MergeHost} {op : MergeLockOp} (hok : OwnerFree h op) :
    MergeChange h (mergeEffect h op) := by
  cases op with
  | tick ms => exact .tick ms
  | spawn pid =>
    simp only [mergeEffect]
    split_ifs with hpid
    · exact .idle
    · rw [not_or] at hpid
      exact .spawn pid (by simpa using hpid.2) hok
  | exit i =>
    cases hp : h.live i with
    | none => simpa [mergeEffect, hp] using MergeChange.idle
    | some p => simpa [mergeEffect, hp] using MergeChange.exit i p hp
  | call id process isSync durationMs =>
    cases hid : h.calls id with
    | some c => simpa [mergeEffect, hid] using MergeChange.idle
    | none =>
      cases hp : h.live process with
      | none => simpa [mergeEffect, hid, hp] using MergeChange.idle
      | some p =>
        simpa [mergeEffect, hid, hp] using
          MergeChange.call id ⟨process, isSync, durationMs, .start⟩ p hid hp rfl
  | acquire id =>
    cases hc : h.caller id with
    | none => simpa [mergeEffect, hc] using MergeChange.idle
    | some cp =>
      obtain ⟨c, p⟩ := cp
      simp only [mergeEffect, hc]
      split
      · rename_i hphase
        exact .tryAcquire hc (by rw [hphase]; rfl) (Or.inl rfl) (hok c p hc)
      · rename_i hphase
        exact .tryAcquire hc (by rw [hphase]; rfl) (Or.inr rfl) (hok c p hc)
      · exact .idle
  | observe id =>
    cases hc : h.caller id with
    | none => simpa [mergeEffect, hc] using MergeChange.idle
    | some cp =>
      obtain ⟨c, p⟩ := cp
      simp only [mergeEffect, hc]
      split
      · rename_i row hphase hlock
        have hrefuse : MergeChange h (h.setPhase id c .refused) :=
          .quiet id c p .refused hc (by rw [hphase]; rfl) rfl (by simp) (by simp)
        split
        · split_ifs
          · exact hrefuse
          · refine .quiet id c p (.observed row) hc (by rw [hphase]; rfl) rfl ?_ (by simp)
            intro row' hrow
            rw [hlock, MergePhase.observed.inj hrow]
        · exact hrefuse
      · rename_i hphase hlock
        exact .quiet id c p .refused hc (by rw [hphase]; rfl) rfl (by simp) (by simp)
      · exact .idle
  | probe id =>
    cases hc : h.caller id with
    | none => simpa [mergeEffect, hc] using MergeChange.idle
    | some cp =>
      obtain ⟨c, p⟩ := cp
      simp only [mergeEffect, hc]
      split
      · rename_i row hphase
        split_ifs with hlives
        · exact .quiet id c p .refused hc (by rw [hphase]; rfl) rfl (by simp) (by simp)
        · refine .quiet id c p (.doomed row) hc (by rw [hphase]; rfl) rfl (by simp) ?_
          intro row' hrow
          obtain rfl := MergePhase.doomed.inj hrow
          refine ⟨hphase, ?_⟩
          intro q hq
          rw [hq] at hlives
          simpa using hlives
      · exact .idle
  | reclaim id =>
    cases hc : h.caller id with
    | none => simpa [mergeEffect, hc] using MergeChange.idle
    | some cp =>
      obtain ⟨c, p⟩ := cp
      simp only [mergeEffect, hc]
      split
      · rename_i observed hphase
        have hretry : MergeChange h (h.setPhase id c .retry) :=
          .quiet id c p .retry hc (by rw [hphase]; rfl) rfl (by simp) (by simp)
        split
        · rename_i row hlock
          split_ifs with hsame
          · exact .reclaim id c p observed row hc hphase hlock hsame
          · exact hretry
        · exact hretry
      · exact .idle
  | renew id =>
    cases hc : h.caller id with
    | none => simpa [mergeEffect, hc] using MergeChange.idle
    | some cp =>
      obtain ⟨c, p⟩ := cp
      simp only [mergeEffect, hc]
      split
      · rename_i acquired lost hphase hsync
        exact .renew id c p acquired lost _ hc hphase
      · exact .idle
  | check id =>
    cases hc : h.caller id with
    | none => simpa [mergeEffect, hc] using MergeChange.idle
    | some cp =>
      obtain ⟨c, p⟩ := cp
      simp only [mergeEffect, hc]
      split
      · rename_i acquired lost hphase
        split_ifs with howned
        · simp only [Bool.and_eq_true, Bool.not_eq_true', mergeLockStillOwned,
            Option.any_eq_true, decide_eq_true_eq] at howned
          obtain ⟨rfl, row, hlock, howner, -⟩ := howned
          exact .report id c p acquired row hc hphase hlock howner
        · exact .finish id c p acquired lost hc hphase
      · exact .idle
  | throws id =>
    cases hc : h.caller id with
    | none => simpa [mergeEffect, hc] using MergeChange.idle
    | some cp =>
      obtain ⟨c, p⟩ := cp
      simp only [mergeEffect, hc]
      split
      · rename_i acquired lost hphase
        exact .finish id c p acquired lost hc hphase
      · exact .idle
  | release id =>
    cases hc : h.caller id with
    | none => simpa [mergeEffect, hc] using MergeChange.idle
    | some cp =>
      obtain ⟨c, p⟩ := cp
      simp only [mergeEffect, hc]
      split
      · rename_i acquired hphase
        split
        · rename_i row hlock
          split_ifs with howner
          · exact .release id c p acquired row hc hphase hlock howner
          · refine .leave id c p acquired hc hphase ?_
            intro row' hrow
            rw [hlock] at hrow
            obtain rfl := Option.some.inj hrow
            exact howner
        · rename_i hlock
          exact .leave id c p acquired hc hphase (by simp [hlock])
      · exact .idle

/-! ## 3. Processes and dates -/

/-- A process with the pid of the row's owner lived when the row was last written. -/
def MergeHost.Dated (h : MergeHost) (row : MergeLockRow) : Prop :=
  row.acquiredAt ≤ h.now ∧ ∃ p ∈ h.processes, row.ownerId = mergeLockOwner p.pid ∧
    ∀ t, p.exitedAt = some t → row.acquiredAt ≤ t

/-- Every live process with that pid has started later. -/
def MergeHost.Orphan (h : MergeHost) (row : MergeLockRow) : Prop :=
  ∀ i p, h.live i = some p → row.ownerId = mergeLockOwner p.pid → row.acquiredAt < p.startedAt

structure MergeHost.Clocked (h : MergeHost) : Prop where
  pids : ∀ i j p q, h.live i = some p → h.live j = some q → p.pid = q.pid → i = j
  dates : ∀ p ∈ h.processes, p.startedAt ≤ h.now ∧ ∀ t, p.exitedAt = some t → t ≤ h.now
  started : ∀ id c, h.calls id = some c → c.process < h.processes.length
  lock : ∀ row, h.lock = some row → h.Dated row
  observed : ∀ id c row, h.calls id = some c → c.phase = .observed row → h.Dated row
  doomed : ∀ id c row, h.calls id = some c → c.phase = .doomed row → h.Dated row ∧ h.Orphan row

section Clocks

variable {h h' : MergeHost} {i : ℕ} {p : MergeProcess} {row : MergeLockRow}

theorem MergeHost.live_lt (hp : h.live i = some p) : i < h.processes.length :=
  (List.getElem?_eq_some_iff.mp (MergeHost.live_some.mp hp).1).1

theorem MergeHost.live_mem (hp : h.live i = some p) : p ∈ h.processes :=
  List.mem_of_getElem? (MergeHost.live_some.mp hp).1

theorem MergeChange.now_le (hch : MergeChange h h') : h.now ≤ h'.now := by
  cases hch
  case tick ms => exact Nat.le_add_right _ _
  all_goals exact le_rfl

/-- A live process was alive before the step, or has just started under a pid that is free. -/
theorem MergeChange.live (hch : MergeChange h h') (hp : h'.live i = some p) :
    h.live i = some p ∨ i = h.processes.length ∧ p.startedAt = h.now ∧
      ∀ q ∈ h.processes, q.pid = p.pid → ∃ t, q.exitedAt = some t ∧ t < h.now := by
  cases hch
  case spawn pid hpid hold =>
    obtain ⟨hget, hex⟩ := MergeHost.live_some.mp hp
    simp only at hget
    rcases lt_trichotomy i h.processes.length with hlt | rfl | hgt
    · rw [List.getElem?_append_left hlt] at hget
      exact Or.inl (MergeHost.live_some.mpr ⟨hget, hex⟩)
    · rw [List.getElem?_concat_length] at hget
      obtain rfl := Option.some.inj hget
      refine Or.inr ⟨rfl, rfl, fun q hq hqpid => ?_⟩
      cases hqex : q.exitedAt with
      | none =>
        have hany : h.pidLives pid = true :=
          List.any_eq_true.mpr ⟨q, hq, decide_eq_true ⟨hqpid, hqex⟩⟩
        rw [hpid] at hany
        cases hany
      | some t => exact ⟨t, rfl, hold q hq hqpid t hqex⟩
    · rw [List.getElem?_eq_none (by simp; omega)] at hget
      cases hget
  case exit j q hq =>
    obtain ⟨hget, hex⟩ := MergeHost.live_some.mp hp
    simp only [List.getElem?_set] at hget
    split_ifs at hget with hij hlt
    · obtain rfl := Option.some.inj hget
      cases hex
    · exact Or.inl (MergeHost.live_some.mpr ⟨hget, hex⟩)
  all_goals exact Or.inl hp

/-- A process keeps its index, its pid and the time it started. -/
theorem MergeChange.process (hch : MergeChange h h') (hp : h.processes[i]? = some p) :
    ∃ p', h'.processes[i]? = some p' ∧ p'.pid = p.pid ∧ p'.startedAt = p.startedAt ∧
      (p'.exitedAt = p.exitedAt ∨ p.exitedAt = none ∧ p'.exitedAt = some h.now) := by
  cases hch
  case spawn pid hpid hold =>
    have hlt := (List.getElem?_eq_some_iff.mp hp).1
    exact ⟨p, by simp only [List.getElem?_append_left hlt, hp], rfl, rfl, Or.inl rfl⟩
  case exit j q hq =>
    obtain ⟨hget, hex⟩ := MergeHost.live_some.mp hq
    simp only [List.getElem?_set]
    by_cases hji : j = i
    · subst hji
      rw [hget] at hp
      obtain rfl := Option.some.inj hp
      exact ⟨{ q with exitedAt := some h.now },
        by simp [(List.getElem?_eq_some_iff.mp hget).1], rfl, rfl, Or.inr ⟨hex, rfl⟩⟩
    · exact ⟨p, by simp [hji, hp], rfl, rfl, Or.inl rfl⟩
  all_goals exact ⟨p, hp, rfl, rfl, Or.inl rfl⟩

theorem MergeChange.length_le (hch : MergeChange h h') :
    h.processes.length ≤ h'.processes.length := by
  cases hch
  case spawn => simp
  case exit => simp
  all_goals exact le_rfl

/-- A process after the step is one from before it, or starts now. -/
theorem MergeChange.process_of (hch : MergeChange h h') (hp : p ∈ h'.processes) :
    (p.startedAt = h.now ∧ p.exitedAt = none) ∨ ∃ q ∈ h.processes, p.startedAt = q.startedAt ∧
      (p.exitedAt = q.exitedAt ∨ p.exitedAt = some h.now) := by
  cases hch
  case spawn pid hpid hold =>
    rcases List.mem_append.mp hp with hp | hp
    · exact Or.inr ⟨p, hp, rfl, Or.inl rfl⟩
    · rw [List.mem_singleton.mp hp]
      exact Or.inl ⟨rfl, rfl⟩
  case exit j q hq =>
    rcases List.mem_or_eq_of_mem_set hp with hp | rfl
    · exact Or.inr ⟨p, hp, rfl, Or.inl rfl⟩
    · exact Or.inr ⟨q, MergeHost.live_mem hq, rfl, Or.inr rfl⟩
  all_goals exact Or.inr ⟨p, hp, rfl, Or.inl rfl⟩

theorem MergeHost.Dated.change (hd : h.Dated row) (hch : MergeChange h h') : h'.Dated row := by
  obtain ⟨hle, p, hp, howner, hexit⟩ := hd
  obtain ⟨i, hi⟩ := List.getElem?_of_mem hp
  obtain ⟨p', hp', hpid, -, hex⟩ := hch.process hi
  refine ⟨hle.trans hch.now_le, p', List.mem_of_getElem? hp', by rw [hpid, howner], ?_⟩
  intro t ht
  rcases hex with hex | ⟨-, hex⟩
  · exact hexit t (by rw [← hex, ht])
  · rw [hex] at ht
    obtain rfl := Option.some.inj ht
    exact hle

/-- A pid that has come again has come after the row was written. -/
theorem MergeHost.Orphan.change (ho : h.Orphan row) (hd : h.Dated row) (hch : MergeChange h h') :
    h'.Orphan row := by
  intro i p hp howner
  rcases hch.live hp with hold | ⟨-, hstart, hfree⟩
  · exact ho i p hold howner
  · obtain ⟨-, q, hq, hqowner, hqexit⟩ := hd
    have hpid : q.pid = p.pid := mergeLockOwner_inj (hqowner.symm.trans howner)
    obtain ⟨t, ht, hlt⟩ := hfree q hq hpid
    rw [hstart]
    exact (hqexit t ht).trans_lt hlt

/-- The row of a caller who writes it now. -/
theorem MergeHost.dated_now {j : ℕ} (hp : h.live j = some p)
    (howner : row.ownerId = mergeLockOwner p.pid) (hnow : row.acquiredAt = h.now) : h.Dated row := by
  obtain ⟨hget, hex⟩ := MergeHost.live_some.mp hp
  refine ⟨hnow.le, p, List.mem_of_getElem? hget, howner, ?_⟩
  intro t ht
  rw [hex] at ht
  cases ht

/-- A call after the step is one from before it, or has changed its phase in it, or is new. -/
theorem MergeChange.call_of (hch : MergeChange h h') {id : ℕ} {c : MergeCall}
    (hc : h'.calls id = some c) :
    h.calls id = some c ∨
    (∃ c₀ p, h.caller id = some (c₀, p) ∧ c.process = c₀.process ∧
      (∀ row, c.phase = .observed row → h.lock = some row) ∧
      ∀ row, c.phase = .doomed row → c₀.phase = .observed row ∧
        ∀ q, ownerPid row.ownerId = some q → h.pidLives q = false) ∨
    (c.phase = .start ∧ ∃ p, h.live c.process = some p) := by
  have hset : ∀ id₀ c₀ p phase, h.caller id₀ = some (c₀, p) → (∀ row, phase ≠ .observed row) →
      (∀ row, phase ≠ .doomed row) → (h.setPhase id₀ c₀ phase).calls id = some c →
      h.calls id = some c ∨ ∃ c₀ p, h.caller id = some (c₀, p) ∧ c.process = c₀.process ∧
        (∀ row, c.phase = .observed row → h.lock = some row) ∧
        ∀ row, c.phase = .doomed row → c₀.phase = .observed row ∧
          ∀ q, ownerPid row.ownerId = some q → h.pidLives q = false := by
    intro id₀ c₀ p phase hcaller hobserved hdoomed hcall
    rcases MergeHost.calls_setPhase_cases hcall with ⟨rfl, rfl⟩ | ⟨-, hold⟩
    · exact Or.inr ⟨c₀, p, hcaller, rfl, fun row hrow => absurd hrow (hobserved row),
        fun row hrow => absurd hrow (hdoomed row)⟩
    · exact Or.inl hold
  rw [← or_assoc]
  cases hch
  case call id₀ c₀ p hnone hp hphase =>
    by_cases hid : id = id₀
    · subst hid
      simp only [Function.update_self] at hc
      obtain rfl := Option.some.inj hc
      exact Or.inr ⟨hphase, p, hp⟩
    · simp only [Function.update_of_ne hid] at hc
      exact Or.inl (Or.inl hc)
  case quiet id₀ c₀ p phase hcaller _ _ hobserved hdoomed =>
    rcases MergeHost.calls_setPhase_cases hc with ⟨rfl, rfl⟩ | ⟨-, hold⟩
    · exact Or.inl (Or.inr ⟨c₀, p, hcaller, rfl, hobserved, hdoomed⟩)
    · exact Or.inl (Or.inl hold)
  case grant id₀ c₀ p hcaller _ _ => exact Or.inl (hset id₀ c₀ p _ hcaller (by simp) (by simp) hc)
  case renew id₀ c₀ p _ _ _ hcaller _ =>
    exact Or.inl (hset id₀ c₀ p _ hcaller (by simp) (by simp) hc)
  case finish id₀ c₀ p _ _ hcaller _ =>
    exact Or.inl (hset id₀ c₀ p _ hcaller (by simp) (by simp) hc)
  case report id₀ c₀ p _ _ hcaller _ _ _ =>
    exact Or.inl (hset id₀ c₀ p _ hcaller (by simp) (by simp) hc)
  case leave id₀ c₀ p _ hcaller _ _ =>
    exact Or.inl (hset id₀ c₀ p _ hcaller (by simp) (by simp) hc)
  case release id₀ c₀ p _ _ hcaller _ _ _ =>
    exact Or.inl (hset id₀ c₀ p _ hcaller (by simp) (by simp) hc)
  case reclaim id₀ c₀ p _ _ hcaller _ _ _ =>
    exact Or.inl (hset id₀ c₀ p _ hcaller (by simp) (by simp) hc)
  all_goals exact Or.inl (Or.inl hc)

theorem MergeHost.Clocked.change (hk : h.Clocked) (hch : MergeChange h h') : h'.Clocked where
  pids := by
    intro i j p q hp hq hpid
    rcases hch.live hp with hp | ⟨rfl, -, hpfree⟩
    · rcases hch.live hq with hq | ⟨rfl, -, hqfree⟩
      · exact hk.pids i j p q hp hq hpid
      · obtain ⟨t, ht, -⟩ := hqfree p (MergeHost.live_mem hp) hpid
        rw [(MergeHost.live_some.mp hp).2] at ht
        cases ht
    · rcases hch.live hq with hq | ⟨rfl, -, -⟩
      · obtain ⟨t, ht, -⟩ := hpfree q (MergeHost.live_mem hq) hpid.symm
        rw [(MergeHost.live_some.mp hq).2] at ht
        cases ht
      · rfl
  dates := by
    intro p hp
    have hnow := hch.now_le
    rcases hch.process_of hp with ⟨hstart, hexit⟩ | ⟨q, hq, hstart, hexit⟩
    · exact ⟨hstart ▸ hnow, fun t ht => by rw [hexit] at ht; cases ht⟩
    · obtain ⟨hqstart, hqexit⟩ := hk.dates q hq
      refine ⟨hstart ▸ hqstart.trans hnow, ?_⟩
      intro t ht
      rcases hexit with hexit | hexit
      · exact (hqexit t (hexit ▸ ht)).trans hnow
      · rw [hexit] at ht
        obtain rfl := Option.some.inj ht
        exact hnow
  started := by
    intro id c hc
    rcases hch.call_of hc with hc | ⟨c₀, p, hcaller, hprocess, -⟩ | ⟨-, p, hp⟩
    · exact (hk.started id c hc).trans_le hch.length_le
    · rw [hprocess]
      exact (hk.started id c₀ (MergeHost.caller_some.mp hcaller).1).trans_le hch.length_le
    · exact (MergeHost.live_lt hp).trans_le hch.length_le
  lock := by
    intro row hrow
    have hsame : h.lock = some row → h'.Dated row := fun hlock => (hk.lock row hlock).change hch
    cases hch
    case grant id c p hc hbefore hfree =>
      obtain rfl := Option.some.inj hrow
      exact MergeHost.dated_now (MergeHost.caller_some.mp hc).2 rfl rfl
    case renew id c p acquired lost lost' hc hphase =>
      obtain ⟨old, hlock, hvalue⟩ := Option.map_eq_some_iff.mp hrow
      split_ifs at hvalue with howner
      · subst hvalue
        exact MergeHost.dated_now (MergeHost.caller_some.mp hc).2 howner rfl
      · subst hvalue
        exact hsame hlock
    case release => cases hrow
    case reclaim => cases hrow
    all_goals exact hsame hrow
  observed := by
    intro id c row hc hphase
    rcases hch.call_of hc with hc | ⟨c₀, p, -, -, hobserved, -⟩ | ⟨hstart, -⟩
    · exact (hk.observed id c row hc hphase).change hch
    · exact (hk.lock row (hobserved row hphase)).change hch
    · rw [hstart] at hphase
      cases hphase
  doomed := by
    intro id c row hc hphase
    rcases hch.call_of hc with hc | ⟨c₀, p, hcaller, -, -, hdoomed⟩ | ⟨hstart, -⟩
    · obtain ⟨hd, ho⟩ := hk.doomed id c row hc hphase
      exact ⟨hd.change hch, ho.change hd hch⟩
    · obtain ⟨hobserved, hdead⟩ := hdoomed row hphase
      have hd := hk.observed id c₀ row (MergeHost.caller_some.mp hcaller).1 hobserved
      -- no live process has the pid, so every one that will have it starts later
      have ho : h.Orphan row := by
        intro i q hq howner
        have hlives := hdead q.pid (by rw [howner, ownerPid_mergeLockOwner])
        obtain ⟨hget, hex⟩ := MergeHost.live_some.mp hq
        have hany : h.pidLives q.pid = true :=
          List.any_eq_true.mpr ⟨q, List.mem_of_getElem? hget, decide_eq_true ⟨rfl, hex⟩⟩
        rw [hlives] at hany
        cases hany
      exact ⟨hd.change hch, ho.change hd hch⟩
    · rw [hstart] at hphase
      cases hphase

end Clocks

/-! ## 4. The row and its owner -/

/-- The row is of the call that inserted it, which is between its acquisition and its release; and
the owner string of a running call names it. -/
structure MergeHost.Held (h : MergeHost) : Prop where
  row : ∀ row, h.lock = some row → ∃ c p, h.calls row.insertedBy = some c ∧
    h.processes[c.process]? = some p ∧ row.ownerId = mergeLockOwner p.pid ∧
    c.phase.acquisition = some row.insertedAt ∧ p.startedAt ≤ row.acquiredAt
  inserted : ∀ row, h.lock = some row → row.insertedAt < h.step
  owner : ∀ row, h.lock = some row → ∀ id c p, h.caller id = some (c, p) →
    c.phase.isActive = true → row.ownerId = mergeLockOwner p.pid → row.insertedBy = id

section Holding

variable {h h' : MergeHost}

/-- The process of a caller after the step lived before it. -/
theorem MergeChange.live_caller (hk : h.Clocked) (hch : MergeChange h h') {id : ℕ}
    {c : MergeCall} {p : MergeProcess} (hc : h'.caller id = some (c, p)) :
    h.live c.process = some p := by
  obtain ⟨hcall, hlive⟩ := MergeHost.caller_some.mp hc
  have hprocess : c.process < h.processes.length := by
    rcases hch.call_of hcall with hc | ⟨c₀, q, hcaller, heq, -⟩ | ⟨-, q, hq⟩
    · exact hk.started id c hc
    · rw [heq]
      exact hk.started id c₀ (MergeHost.caller_some.mp hcaller).1
    · exact MergeHost.live_lt hq
  rcases hch.live hlive with hold | ⟨hnew, -⟩
  · exact hold
  · exact absurd hnew hprocess.ne

/-- A change of phase leaves the row its call, unless it is the row's call that leaves. -/
theorem MergeHost.Held.setPhase (hh : h.Held) {id : ℕ} {c : MergeCall} {p : MergeProcess}
    {phase : MergePhase} (hc : h.caller id = some (c, p))
    (hrow : ∀ row, h.lock = some row → row.insertedBy = id →
      phase.acquisition = c.phase.acquisition)
    (howner : phase.isActive = true → c.phase.isActive = true) : (h.setPhase id c phase).Held where
  row := by
    intro row hlock
    obtain ⟨c', p', hcall, hp, hown, hacq, hstart⟩ := hh.row row hlock
    by_cases hid : row.insertedBy = id
    · have hcc := (MergeHost.caller_some.mp hc).1
      rw [← hid, hcall] at hcc
      obtain rfl := Option.some.inj hcc
      refine ⟨{ c' with phase := phase }, p', ?_, hp, hown, ?_, hstart⟩
      · rw [hid, MergeHost.calls_setPhase_self]
      · exact (hrow row hlock hid).trans hacq
    · exact ⟨c', p', by rw [MergeHost.calls_setPhase_of_ne hid, hcall], hp, hown, hacq, hstart⟩
  inserted := hh.inserted
  owner := by
    intro row hlock id' c' p' hc' hactive hown
    obtain ⟨hcall, hlive⟩ := MergeHost.caller_some.mp hc'
    rcases MergeHost.calls_setPhase_cases hcall with ⟨rfl, rfl⟩ | ⟨-, hold⟩
    · have hpp := (MergeHost.caller_some.mp hc).2
      have hsame : some p' = some p := hlive.symm.trans hpp
      rw [Option.some.inj hsame] at hown
      exact hh.owner row hlock id' c p hc (howner hactive) hown
    · exact hh.owner row hlock id' c' p' (MergeHost.caller_some.mpr ⟨hold, hlive⟩) hactive hown

theorem MergeHost.Held.next (hh : h.Held) : MergeHost.Held { h with step := h.step + 1 } :=
  ⟨hh.row, fun row hrow => (hh.inserted row hrow).trans (Nat.lt_succ_self _), hh.owner⟩

/-- The row without its lock: there is nothing to say. -/
theorem MergeHost.held_of_none (hlock : h.lock = none) : h.Held := by
  constructor
  · intro row hrow
    rw [hlock] at hrow
    cases hrow
  · intro row hrow
    rw [hlock] at hrow
    cases hrow
  · intro row hrow
    rw [hlock] at hrow
    cases hrow

/-- The row's call, if it is the one that changes its phase. -/
theorem MergeHost.Held.own (hh : h.Held) {row : MergeLockRow} (hrow : h.lock = some row)
    {id : ℕ} {c : MergeCall} {p : MergeProcess} (hc : h.caller id = some (c, p))
    (hid : row.insertedBy = id) :
    row.ownerId = mergeLockOwner p.pid ∧ c.phase.acquisition = some row.insertedAt := by
  obtain ⟨c', p', hcall, hp, hown, hacq, -⟩ := hh.row row hrow
  obtain ⟨hcc, hlive⟩ := MergeHost.caller_some.mp hc
  rw [hid, hcc] at hcall
  obtain rfl := Option.some.inj hcall
  rw [(MergeHost.live_some.mp hlive).1] at hp
  obtain rfl := Option.some.inj hp
  exact ⟨hown, hacq⟩

/-- Time, processes that start and exit. -/
theorem MergeHost.Held.processes (hk : h.Clocked) (hh : h.Held) (hch : MergeChange h h')
    (hcalls : h'.calls = h.calls) (hlock : h'.lock = h.lock) (hstep : h'.step = h.step) :
    h'.Held where
  row := by
    intro row hrow
    rw [hlock] at hrow
    obtain ⟨c, p, hcall, hp, hown, hacq, hstart⟩ := hh.row row hrow
    obtain ⟨p', hp', hpid, hstart', -⟩ := hch.process hp
    exact ⟨c, p', by rw [hcalls, hcall], hp', by rw [hpid, hown], hacq, hstart' ▸ hstart⟩
  inserted := by
    intro row hrow
    rw [hlock] at hrow
    rw [hstep]
    exact hh.inserted row hrow
  owner := by
    intro row hrow id c p hc hactive hown
    rw [hlock] at hrow
    have hcall := (MergeHost.caller_some.mp hc).1
    rw [hcalls] at hcall
    have hcaller := MergeHost.caller_some.mpr ⟨hcall, hch.live_caller hk hc⟩
    exact hh.owner row hrow id c p hcaller hactive hown

/-- The new row, and the call that is the only one of its process. -/
theorem MergeHost.Held.grant (hk : h.Clocked) {id : ℕ} {c : MergeCall} {p : MergeProcess}
    (hc : h.caller id = some (c, p))
    (hfree : ∀ id', id' ≠ id → ∀ c' p', h.caller id' = some (c', p') →
      c'.phase.isActive = true → c'.process ≠ c.process) :
    MergeHost.Held { h.setPhase id c (.holding h.step false) with
      lock := some ⟨mergeLockOwner p.pid, h.now, h.now + c.durationMs, id, h.step⟩
      step := h.step + 1 } where
  row := by
    rintro row ⟨rfl⟩
    obtain ⟨hcall, hlive⟩ := MergeHost.caller_some.mp hc
    obtain ⟨hget, -⟩ := MergeHost.live_some.mp hlive
    refine ⟨{ c with phase := .holding h.step false }, p, ?_, hget, rfl, rfl, ?_⟩
    · exact MergeHost.calls_setPhase_self
    · exact (hk.dates p (List.mem_of_getElem? hget)).1
  inserted := by
    rintro row ⟨rfl⟩
    exact Nat.lt_succ_self _
  owner := by
    rintro row ⟨rfl⟩ id' c' p' hc' hactive hown
    obtain ⟨hcall, hlive⟩ := MergeHost.caller_some.mp hc'
    rcases MergeHost.calls_setPhase_cases hcall with ⟨rfl, -⟩ | ⟨hne, hold⟩
    · rfl
    · have hpp := (MergeHost.caller_some.mp hc).2
      have hpid : p.pid = p'.pid := mergeLockOwner_inj hown
      have hsame : c.process = c'.process := hk.pids _ _ p p' hpp hlive hpid
      have hcaller : h.caller id' = some (c', p') := MergeHost.caller_some.mpr ⟨hold, hlive⟩
      exact absurd hsame.symm (hfree id' hne c' p' hcaller hactive)

theorem MergeHost.Held.change (hk : h.Clocked) (hh : h.Held) (hch : MergeChange h h') :
    MergeHost.Held { h' with step := h.step + 1 } := by
  have hch' := hch
  cases hch
  case idle => exact hh.next
  case tick => exact (hh.processes hk hch' rfl rfl rfl).next
  case spawn => exact (hh.processes hk hch' rfl rfl rfl).next
  case exit => exact (hh.processes hk hch' rfl rfl rfl).next
  case call id c p hnone hp hphase =>
    refine MergeHost.Held.next (h := { h with calls := Function.update h.calls id (some c) })
      ⟨?_, hh.inserted, ?_⟩
    · intro row hrow
      obtain ⟨c', p', hcall, hp', hown, hacq, hstart⟩ := hh.row row hrow
      have hid : row.insertedBy ≠ id := by
        rintro rfl
        rw [hnone] at hcall
        cases hcall
      exact ⟨c', p', by simp only [Function.update_of_ne hid, hcall], hp', hown, hacq, hstart⟩
    · intro row hrow id' c' p' hc' hactive hown
      obtain ⟨hcall, hlive⟩ := MergeHost.caller_some.mp hc'
      by_cases hid : id' = id
      · subst hid
        simp only [Function.update_self] at hcall
        obtain rfl := Option.some.inj hcall
        rw [hphase] at hactive
        cases hactive
      · simp only [Function.update_of_ne hid] at hcall
        exact hh.owner row hrow id' c' p' (MergeHost.caller_some.mpr ⟨hcall, hlive⟩) hactive hown
  case quiet id c p phase hc hbefore hafter hobserved hdoomed =>
    refine (hh.setPhase hc ?_ ?_).next
    · intro row hrow hid
      have hacq := (hh.own hrow hc hid).2
      rw [MergePhase.isActive, hacq] at hbefore
      cases hbefore
    · intro hactive
      rw [hafter] at hactive
      cases hactive
  case grant id c p hc hbefore hfree => exact MergeHost.Held.grant hk hc hfree
  case renew id c p acquired lost lost' hc hphase =>
    have hset : (h.setPhase id c (.holding acquired lost')).Held :=
      hh.setPhase hc (by simp [hphase, MergePhase.acquisition])
        (by simp [hphase, MergePhase.isActive, MergePhase.acquisition])
    refine ⟨?_, ?_, ?_⟩
    · intro row hrow
      obtain ⟨old, hlock, hvalue⟩ := Option.map_eq_some_iff.mp hrow
      obtain ⟨c', p', hcall, hp, hown, hacq, hstart⟩ := hset.row old hlock
      split_ifs at hvalue with howner
      · subst hvalue
        exact ⟨c', p', hcall, hp, hown, hacq, (hk.dates p' (List.mem_of_getElem? hp)).1⟩
      · subst hvalue
        exact ⟨c', p', hcall, hp, hown, hacq, hstart⟩
    · intro row hrow
      obtain ⟨old, hlock, hvalue⟩ := Option.map_eq_some_iff.mp hrow
      have hlt := (hh.inserted old hlock).trans (Nat.lt_succ_self _)
      split_ifs at hvalue with howner
      · subst hvalue
        exact hlt
      · subst hvalue
        exact hlt
    · intro row hrow id' c' p' hc' hactive hown
      obtain ⟨old, hlock, hvalue⟩ := Option.map_eq_some_iff.mp hrow
      split_ifs at hvalue with howner
      · subst hvalue
        exact hset.owner old hlock id' c' p' hc' hactive hown
      · subst hvalue
        exact hset.owner old hlock id' c' p' hc' hactive hown
  case finish id c p acquired lost hc hphase =>
    exact (hh.setPhase hc (by simp [hphase, MergePhase.acquisition])
      (by simp [hphase, MergePhase.isActive, MergePhase.acquisition])).next
  case report id c p acquired row hc hphase hlock howner =>
    have hset : (h.setPhase id c (.finishing acquired)).Held :=
      hh.setPhase hc (by simp [hphase, MergePhase.acquisition])
        (by simp [hphase, MergePhase.isActive, MergePhase.acquisition])
    exact ⟨hset.next.row, hset.next.inserted, hset.next.owner⟩
  case leave id c p acquired hc hphase hother =>
    refine (hh.setPhase hc ?_ (by simp [MergePhase.isActive, MergePhase.acquisition])).next
    intro row hrow hid
    exact absurd (hh.own hrow hc hid).1 (hother row hrow)
  case release => exact MergeHost.held_of_none rfl
  case reclaim => exact MergeHost.held_of_none rfl

end Holding

/-! ## 5. What is reported and deleted -/

structure MergeHost.Ledgers (h : MergeHost) : Prop where
  reported : ∀ r ∈ h.reports, r.checked < h.step
  /-- What other calls report was checked before the row was inserted. -/
  before : ∀ row, h.lock = some row → ∀ r ∈ h.reports, r.call ≠ row.insertedBy →
    r.checked < row.insertedAt
  disjoint : ∀ r ∈ h.reports, ∀ r' ∈ h.reports, r.call ≠ r'.call →
    r.checked < r'.acquired ∨ r'.checked < r.acquired
  deletions : ∀ d ∈ h.deletions, d.deleter = d.inserter ∨ d.inserterRuns = false

section Reporting

variable {h h' : MergeHost}

/-- A step that inserts no row and reports and deletes nothing. -/
theorem MergeHost.Ledgers.keep (hl : h.Ledgers) (hreports : h'.reports = h.reports)
    (hdeletions : h'.deletions = h.deletions)
    (hlock : ∀ row', h'.lock = some row' → ∃ row, h.lock = some row ∧
      row'.insertedBy = row.insertedBy ∧ row'.insertedAt = row.insertedAt) :
    MergeHost.Ledgers { h' with step := h.step + 1 } where
  reported := by
    intro r hr
    rw [hreports] at hr
    exact (hl.reported r hr).trans (Nat.lt_succ_self _)
  before := by
    intro row' hrow' r hr hne
    rw [hreports] at hr
    obtain ⟨row, hrow, hby, hat'⟩ := hlock row' hrow'
    rw [hat']
    exact hl.before row hrow r hr (by rw [← hby]; exact hne)
  disjoint := by
    rw [hreports]
    exact hl.disjoint
  deletions := by
    rw [hdeletions]
    exact hl.deletions

/-- A row that is reclaimed is not the row of a running call. -/
theorem MergeHost.not_running_of_doomed (hk : h.Clocked) (hh : h.Held) {id : ℕ} {c : MergeCall}
    {p : MergeProcess} {observed row : MergeLockRow} (hc : h.caller id = some (c, p))
    (hphase : c.phase = .doomed observed) (hlock : h.lock = some row)
    (hsame : row.sameLease observed = true) :
    (h.setPhase id c .retry).isRunning row.insertedBy = false := by
  by_contra hrun
  simp only [Bool.not_eq_false] at hrun
  obtain ⟨c', p', hc', hactive⟩ := MergeHost.isRunning_iff.mp hrun
  obtain ⟨hcall, hlive⟩ := MergeHost.caller_some.mp hc'
  rcases MergeHost.calls_setPhase_cases hcall with ⟨-, rfl⟩ | ⟨-, hold⟩
  · cases hactive
  · obtain ⟨howner, hacquired, -⟩ := of_decide_eq_true hsame
    obtain ⟨c'', p'', hcall', hp, hown, -, hstart⟩ := hh.row row hlock
    rw [hold] at hcall'
    obtain rfl := Option.some.inj hcall'
    have hlive' : h.live c'.process = some p' := hlive
    rw [(MergeHost.live_some.mp hlive').1] at hp
    obtain rfl := Option.some.inj hp
    have horphan := (hk.doomed id c observed (MergeHost.caller_some.mp hc).1 hphase).2
    have hlt := horphan c'.process p' hlive' (howner.symm.trans hown)
    rw [← hacquired] at hlt
    exact absurd hstart (not_le.mpr hlt)

theorem MergeHost.Ledgers.change (hk : h.Clocked) (hh : h.Held) (hl : h.Ledgers)
    (hch : MergeChange h h') : MergeHost.Ledgers { h' with step := h.step + 1 } := by
  have hsame : ∀ row, h.lock = some row → ∃ row₀, h.lock = some row₀ ∧
      row.insertedBy = row₀.insertedBy ∧ row.insertedAt = row₀.insertedAt :=
    fun row hrow => ⟨row, hrow, rfl, rfl⟩
  cases hch
  case grant id c p hc hbefore hfree =>
    refine ⟨fun r hr => (hl.reported r hr).trans (Nat.lt_succ_self _), ?_, hl.disjoint,
      hl.deletions⟩
    rintro row ⟨rfl⟩ r hr -
    exact hl.reported r hr
  case renew id c p acquired lost lost' hc hphase =>
    refine hl.keep rfl rfl ?_
    intro row hrow
    obtain ⟨old, hlock, hvalue⟩ := Option.map_eq_some_iff.mp hrow
    refine ⟨old, hlock, ?_⟩
    split_ifs at hvalue with howner
    · subst hvalue
      exact ⟨rfl, rfl⟩
    · subst hvalue
      exact ⟨rfl, rfl⟩
  case report id c p acquired row hc hphase hlock howner =>
    -- the row is the reporting call's own, inserted when it acquired the lock
    have hid : row.insertedBy = id :=
      hh.owner row hlock id c p hc (by rw [hphase]; rfl) howner
    have hat : acquired = row.insertedAt := by
      have hacq := (hh.own hlock hc hid).2
      rw [hphase] at hacq
      exact Option.some.inj hacq
    have hothers : ∀ r ∈ h.reports, r.call ≠ id → r.checked < acquired := by
      intro r hr hne
      rw [hat]
      exact hl.before row hlock r hr (by rw [hid]; exact hne)
    constructor
    case reported =>
      intro r hr
      rcases List.mem_append.mp hr with hr | hr
      · exact (hl.reported r hr).trans (Nat.lt_succ_self _)
      · rw [List.mem_singleton.mp hr]
        exact Nat.lt_succ_self _
    case before =>
      intro row' hrow' r hr hne
      obtain rfl : row = row' := Option.some.inj (hlock.symm.trans hrow')
      rcases List.mem_append.mp hr with hr | hr
      · exact hl.before row hlock r hr hne
      · rw [List.mem_singleton.mp hr] at hne
        exact absurd hid.symm hne
    case disjoint =>
      intro r hr r' hr' hne
      rcases List.mem_append.mp hr with hr | hr
      · rcases List.mem_append.mp hr' with hr' | hr'
        · exact hl.disjoint r hr r' hr' hne
        · rw [List.mem_singleton.mp hr'] at hne ⊢
          exact Or.inl (hothers r hr hne)
      · rcases List.mem_append.mp hr' with hr' | hr'
        · rw [List.mem_singleton.mp hr] at hne ⊢
          exact Or.inr (hothers r' hr' hne.symm)
        · rw [List.mem_singleton.mp hr, List.mem_singleton.mp hr'] at hne
          exact absurd rfl hne
    case deletions => exact hl.deletions
  case release id c p acquired row hc hphase hlock howner =>
    have hid : row.insertedBy = id :=
      hh.owner row hlock id c p hc (by rw [hphase]; rfl) howner
    refine ⟨fun r hr => (hl.reported r hr).trans (Nat.lt_succ_self _), ?_, hl.disjoint, ?_⟩
    · intro row' hrow'
      cases hrow'
    · intro d hd
      rcases List.mem_append.mp hd with hd | hd
      · exact hl.deletions d hd
      · rw [List.mem_singleton.mp hd]
        exact Or.inl hid.symm
  case reclaim id c p observed row hc hphase hlock hlease =>
    refine ⟨fun r hr => (hl.reported r hr).trans (Nat.lt_succ_self _), ?_, hl.disjoint, ?_⟩
    · intro row' hrow'
      cases hrow'
    · intro d hd
      rcases List.mem_append.mp hd with hd | hd
      · exact hl.deletions d hd
      · rw [List.mem_singleton.mp hd]
        exact Or.inr (MergeHost.not_running_of_doomed hk hh hc hphase hlock hlease)
  all_goals exact hl.keep rfl rfl hsame

end Reporting

/-! ## 6. The theorem of the host -/

structure MergeHost.Sound (h : MergeHost) : Prop where
  clocked : h.Clocked
  held : h.Held
  ledgers : h.Ledgers

theorem MergeHost.Sound.step {h : MergeHost} (hs : h.Sound) {op : MergeLockOp}
    (hok : OwnerFree h op) : (mergeLockStep h op).Sound := by
  have hch := mergeEffect_change hok
  have hclocked := hs.clocked.change hch
  exact ⟨⟨hclocked.pids, hclocked.dates, hclocked.started, hclocked.lock, hclocked.observed,
    hclocked.doomed⟩, hs.held.change hs.clocked hch, hs.ledgers.change hs.clocked hs.held hch⟩

/-- A host on which no process has started. -/
theorem MergeHost.sound_fresh : MergeHost.Sound {} where
  clocked := ⟨by simp [MergeHost.live], by simp, by simp, by simp, by simp, by simp⟩
  held := MergeHost.held_of_none rfl
  ledgers := ⟨by simp, by simp, by simp, by simp⟩

def sharedOwnerRun : List MergeLockOp :=
  [.spawn 7, .call 0 0 false 10, .call 1 0 false 100, .call 2 0 false 100, .acquire 0, .tick 11,
    .acquire 1, .check 0, .release 0, .acquire 2, .check 1]

end PosseClient
