/-
# Release barriers are neither lost nor early

Which tasks an event of the gate lets go, and from it that a barrier is resolved exactly when its
write has been let go, and that a wait outlasts everything it found registered.

* `release_barriers_exact` is the contract of the barriers and of `waitForRelease`.
-/
import PosseClient.Concurrency.GateExclusion
import PosseClient.Concurrency.ResourceGate

namespace PosseClient

/-! ## 1. The tasks a gate lets go -/

/-- The tasks whose `onCancel` runs. -/
def cancelling (stack : List GateFrame) : List ℕ :=
  stack.filterMap (fun frame => match frame with
    | .cancelHook t => some t
    | _ => none)

@[simp] theorem cancelling_nil : cancelling [] = [] := rfl

@[simp] theorem cancelling_cancelHook (t : ℕ) (stack : List GateFrame) :
    cancelling (.cancelHook t :: stack) = t :: cancelling stack := rfl

@[simp] theorem cancelling_releaseHook (t : ℕ) (outcome : GateOutcome) (stack : List GateFrame) :
    cancelling (.releaseHook t outcome :: stack) = cancelling stack := rfl

@[simp] theorem cancelling_closing (pending : List ℕ) (reason : String) (stack : List GateFrame) :
    cancelling (.closing pending reason :: stack) = cancelling stack := rfl

/-- The gate has let the task go: it has given the lock back and settled, or it has been cancelled,
and its hook has returned. -/
def Gate.freed (g : Gate) (t : ℕ) : Prop :=
  (g.tasks t).phase = .done ∨ ((g.tasks t).phase = .cancelled ∧ t ∉ cancelling g.stack)

/-- The hooks of `onCancel` that run are of cancelled tasks, each once. -/
structure CancelHooks (g : Gate) : Prop where
  nodup : (cancelling g.stack).Nodup
  cancelled : ∀ t ∈ cancelling g.stack, (g.tasks t).phase = .cancelled

/-- A change that lets the tasks of a set go, and no other. -/
structure Frees (S : Set ℕ) (g g' : Gate) : Prop where
  nextTask : g.nextTask ≤ g'.nextTask
  freed : ∀ t < g.nextTask, g'.freed t ↔ g.freed t ∨ t ∈ S
  refused : ∀ t < g.nextTask, (g'.tasks t).phase = .refused ↔ (g.tasks t).phase = .refused
  fresh : ∀ t, g.nextTask ≤ t → t < g'.nextTask → ¬ g'.freed t
  hooks : CancelHooks g → CancelHooks g'

theorem Frees.refl (g : Gate) : Frees ∅ g g :=
  ⟨le_rfl, fun t _ => by simp, fun _ _ => Iff.rfl, fun t ht ht' => absurd ht' (not_lt.mpr ht), id⟩

theorem Frees.trans {S T : Set ℕ} {a b c : Gate} (h : Frees S a b) (h' : Frees T b c)
    (hT : ∀ t ∈ T, t < a.nextTask) : Frees (S ∪ T) a c := by
  refine ⟨h.nextTask.trans h'.nextTask, fun t ht => ?_, fun t ht => ?_, fun t ht ht' => ?_,
    fun hhooks => h'.hooks (h.hooks hhooks)⟩
  · rw [h'.freed t (ht.trans_le h.nextTask), h.freed t ht, or_assoc]
    rfl
  · rw [h'.refused t (ht.trans_le h.nextTask), h.refused t ht]
  · by_cases hb : t < b.nextTask
    · rw [h'.freed t hb]
      rintro (hfreed | hmem)
      · exact h.fresh t ht hb hfreed
      · exact absurd (hT t hmem) (not_lt.mpr ht)
    · exact h'.fresh t (not_lt.mp hb) ht'

/-- A change that lets nothing go, after another. -/
theorem Frees.then {S : Set ℕ} {a b c : Gate} (h : Frees S a b) (h' : Frees ∅ b c) :
    Frees S a c := by
  have hboth := h.trans h' (fun t ht => absurd ht (Set.notMem_empty t))
  rwa [Set.union_empty] at hboth

/-- A change that lets nothing go, before another. -/
theorem Frees.after {S : Set ℕ} {a b c : Gate} (h : Frees ∅ a b) (h' : Frees S b c)
    (hS : ∀ t ∈ S, t < a.nextTask) : Frees S a c := by
  have hboth := h.trans h' hS
  rwa [Set.empty_union] at hboth

/-- Only tasks whose promise is open change, and it stays open. -/
structure Calm (g g' : Gate) : Prop where
  hooks : cancelling g'.stack = cancelling g.stack
  nextTask : g'.nextTask = g.nextTask
  tasks : ∀ t, g'.tasks t = g.tasks t ∨
    ((g.tasks t).phase.settlements = 0 ∧ (g'.tasks t).phase.settlements = 0)

section Gate

variable {g g' : Gate} {t : ℕ}

theorem Calm.of_same (hhooks : cancelling g'.stack = cancelling g.stack)
    (hnext : g'.nextTask = g.nextTask) (htasks : g'.tasks = g.tasks) : Calm g g' :=
  ⟨hhooks, hnext, fun t => Or.inl (congrFun htasks t)⟩

theorem not_freed (h : (g.tasks t).phase.settlements = 0) : ¬ g.freed t := by
  rintro (hdone | ⟨hcancelled, -⟩)
  · rw [hdone] at h
    cases h
  · rw [hcancelled] at h
    cases h

theorem not_refused (h : (g.tasks t).phase.settlements = 0) : (g.tasks t).phase ≠ .refused := by
  intro hrefused
  rw [hrefused] at h
  cases h

theorem freed_congr (htask : g'.tasks t = g.tasks t)
    (hhooks : t ∈ cancelling g'.stack ↔ t ∈ cancelling g.stack) : g'.freed t ↔ g.freed t := by
  unfold Gate.freed
  rw [htask, hhooks]

theorem Calm.frees (h : Calm g g') : Frees ∅ g g' := by
  refine ⟨h.nextTask.ge, fun t _ => ?_, fun t _ => ?_, fun t ht ht' => ?_, fun hhooks => ⟨?_, ?_⟩⟩
  · simp only [Set.mem_empty_iff_false, or_false]
    rcases h.tasks t with hsame | ⟨hopen, hopen'⟩
    · exact freed_congr hsame (by rw [h.hooks])
    · exact iff_of_false (not_freed hopen') (not_freed hopen)
  · rcases h.tasks t with hsame | ⟨hopen, hopen'⟩
    · rw [hsame]
    · exact iff_of_false (not_refused hopen') (not_refused hopen)
  · rw [h.nextTask] at ht'
    exact absurd ht' (not_lt.mpr ht)
  · rw [h.hooks]
    exact hhooks.nodup
  · intro t ht
    rw [h.hooks] at ht
    have hcancelled := hhooks.cancelled t ht
    rcases h.tasks t with hsame | ⟨hopen, -⟩
    · rw [hsame]
      exact hcancelled
    · rw [hcancelled] at hopen
      cases hopen

theorem Drains.calm {s : ℕ} (h : Drains s g g') : Calm g g' := by
  refine ⟨by rw [h.stack], h.nextTask, fun t => ?_⟩
  by_cases hqueued : (g.tasks t).phase = .queued
  · refine Or.inr ⟨by rw [hqueued]; rfl, ?_⟩
    rcases h.phase t with hsame | ⟨-, hscheduled⟩
    · rw [hsame, hqueued]
      rfl
    · rw [hscheduled]
      rfl
  · exact Or.inl (h.kept t hqueued)

/-- A cancellation lets nothing go before its hook returns. -/
theorem frees_cancelWaiter (g : Gate) (t : ℕ) (outcome : GateOutcome) :
    Frees ∅ g (g.cancelWaiter t outcome).1 := by
  by_cases hphase : (g.tasks t).phase = .queued
  swap
  · rw [cancelWaiter_other hphase]
    exact Frees.refl g
  obtain ⟨hcancels, -⟩ := cancels_cancelWaiter hphase outcome
  generalize (g.cancelWaiter t outcome).1 = g' at hcancels ⊢
  have hopen : (g.tasks t).phase.settlements = 0 := by rw [hphase]; rfl
  have hhooks : cancelling g'.stack = t :: cancelling g.stack := by
    rw [hcancels.stack, cancelling_cancelHook]
  refine ⟨hcancels.nextTask.ge, fun u _ => ?_, fun u _ => ?_, fun u hu hu' => ?_,
    fun hhooked => ⟨?_, fun u hu => ?_⟩⟩
  · simp only [Set.mem_empty_iff_false, or_false]
    by_cases hut : u = t
    · subst hut
      refine iff_of_false ?_ (not_freed hopen)
      rintro (hdone | ⟨-, hnot⟩)
      · rw [hcancels.phase] at hdone
        cases hdone
      · exact hnot (hhooks ▸ List.mem_cons_self)
    · refine freed_congr (hcancels.others u hut) ?_
      rw [hhooks, List.mem_cons]
      exact or_iff_right hut
  · by_cases hut : u = t
    · subst hut
      rw [hcancels.phase, hphase]
      exact iff_of_false (fun h => by cases h) (fun h => by cases h)
    · rw [hcancels.others u hut]
  · rw [hcancels.nextTask] at hu'
    exact absurd hu' (not_lt.mpr hu)
  · rw [hhooks, List.nodup_cons]
    refine ⟨fun hin => ?_, hhooked.nodup⟩
    rw [hhooked.cancelled t hin] at hphase
    cases hphase
  · rw [hhooks] at hu
    by_cases hut : u = t
    · rw [hut]
      exact hcancels.phase
    · rw [hcancels.others u hut]
      exact hhooked.cancelled u ((List.mem_cons.mp hu).resolve_left hut)

theorem frees_continueClose (reason : String) (pending : List ℕ) (g : Gate) :
    Frees ∅ g (g.continueClose reason pending) := by
  induction pending with
  | nil => exact Frees.refl g
  | cons t rest ih =>
    unfold Gate.continueClose
    dsimp only
    split_ifs
    · refine Frees.then ?_ (frees_cancelWaiter _ t _)
      refine Calm.frees ?_
      exact Calm.of_same rfl rfl rfl
    · exact ih

theorem frees_resume (g : Gate) : Frees ∅ g g.resume := by
  unfold Gate.resume
  split
  · rename_i pending reason below hstack
    refine Frees.then ?_ (frees_continueClose reason pending _)
    refine Calm.frees (Calm.of_same ?_ rfl rfl)
    rw [hstack, cancelling_closing]
  · exact Frees.refl g

theorem frees_addTask (g : Gate) {task : GateTask}
    (hphase : task.phase = .queued ∨ task.phase = .refused)
    (hbound : ∀ t ∈ cancelling g.stack, t < g.nextTask) : Frees ∅ g (g.addTask task) := by
  have hold : ∀ t < g.nextTask, (g.addTask task).tasks t = g.tasks t := by
    intro t ht
    simp [Gate.addTask, Gate.setTask, ht.ne]
  refine ⟨Nat.le_succ _, fun t ht => ?_, fun t ht => ?_, fun t ht ht' => ?_, fun hhooks =>
    ⟨hhooks.nodup, fun t ht => ?_⟩⟩
  · simp only [Set.mem_empty_iff_false, or_false]
    exact freed_congr (hold t ht) Iff.rfl
  · rw [hold t ht]
  · obtain rfl : t = g.nextTask := by
      change t < g.nextTask + 1 at ht'
      omega
    have hself : (g.addTask task).tasks g.nextTask = task := by simp [Gate.addTask]
    rw [Gate.freed, hself]
    rcases hphase with hqueued | hrefused
    · simp [hqueued]
    · simp [hrefused]
  · rw [hold t (hbound t ht)]
    exact hhooks.cancelled t ht

theorem cancelWaiter_nextTask (g : Gate) (t : ℕ) (outcome : GateOutcome) :
    (g.cancelWaiter t outcome).1.nextTask = g.nextTask := by
  unfold Gate.cancelWaiter
  dsimp only
  split_ifs <;> rfl

theorem stateFor_nextTask (g : Gate) (key : String) : (g.stateFor key).1.nextTask = g.nextTask := by
  unfold Gate.stateFor
  split <;> rfl

/-- A call makes one task. -/
theorem enqueue_nextTask (g : Gate) (call : GateCall) :
    (g.enqueue call).nextTask = g.nextTask + 1 := by
  have hadded : (g.stateFor (normalizeGateKey call.key)).1.nextTask + 1 = g.nextTask + 1 :=
    congrArg (· + 1) (stateFor_nextTask g _)
  unfold Gate.enqueue
  dsimp only
  split_ifs
  · rfl
  · rw [cancelWaiter_nextTask]
    exact hadded
  · rw [cancelWaiter_nextTask, drain_nextTask]
    exact hadded
  · rw [drain_nextTask]
    exact hadded

/-- The tasks of the hooks that run are tasks of the gate. -/
theorem GateInv.cancelling_lt (h : GateInv g) : ∀ t ∈ cancelling g.stack, t < g.nextTask := by
  intro t ht
  obtain ⟨frame, hframe, hsome⟩ := List.mem_filterMap.mp ht
  refine h.frames t (List.mem_filterMap.mpr ⟨frame, hframe, ?_⟩)
  cases frame with
  | cancelHook u => exact hsome
  | releaseHook u outcome => cases hsome
  | closing pending reason => cases hsome

theorem GateInv.enqueue_frees (h : GateInv g) (call : GateCall) : Frees ∅ g (g.enqueue call) := by
  unfold Gate.enqueue
  dsimp only
  cases hclosed : g.closed with
  | true =>
    rw [if_pos rfl]
    exact frees_addTask g (Or.inr rfl) h.cancelling_lt
  | false =>
    rw [if_neg (by simp)]
    have hstate := h.stateFor (normalizeGateKey call.key)
    obtain ⟨-, hbelow, hlookup, -, htasks, hnext, hstack, hopen⟩ :=
      h.toGateSound.stateFor (normalizeGateKey call.key)
    generalize g.stateFor (normalizeGateKey call.key) = p at *
    obtain ⟨g₁, s⟩ := p
    dsimp only at hstate hbelow hlookup htasks hnext hstack hopen ⊢
    have hadded : Frees ∅ g (g₁.addTask (g₁.newTask call s)) := by
      refine Frees.then ?_ (frees_addTask g₁ (Or.inl rfl) hstate.cancelling_lt)
      exact (Calm.of_same (by rw [hstack]) hnext htasks).frees
    have hdrained : Frees ∅ g (((g₁.addTask (g₁.newTask call s)).insertTask s g₁.nextTask).drain
        (normalizeGateKey call.key) s) := by
      obtain ⟨i, hi⟩ := insertTask_eq_withTask (g := g₁) (g₁.newTask call s)
      have hsound := hstate.toGateSound.splice (g₁.newTask call s) rfl rfl rfl hbelow hlookup i
      rw [← hi] at hsound
      refine Frees.then (hadded.then (Calm.frees ?_)) (drain_spec hsound _ _).2.1.calm.frees
      exact Calm.of_same rfl rfl rfl
    split_ifs
    · exact hadded.then (frees_cancelWaiter _ _ _)
    · exact hdrained.then (frees_cancelWaiter _ _ _)
    · exact hdrained

/-- An open task that changes. -/
theorem calm_setTask {task : GateTask} (hopen : (g.tasks t).phase.settlements = 0)
    (hopen' : task.phase.settlements = 0) : Calm g (g.setTask t task) := by
  refine ⟨rfl, rfl, fun u => ?_⟩
  by_cases hut : u = t
  · subst hut
    rw [setTask_tasks_self]
    exact Or.inr ⟨hopen, hopen'⟩
  · exact Or.inl (setTask_tasks_of_ne hut)

/-- **A step of the gate.**  It lets nothing go, unless a hook returns. -/
theorem GateInv.step_frees (h : GateInv g) {event : GateEvent} (hevent : event ≠ .hookReturns) :
    Frees ∅ g (assetGateStep g event) := by
  cases event with
  | runBlocking call => exact h.enqueue_frees _
  | runNonBlocking call => exact h.enqueue_frees _
  | abort t =>
    change Frees ∅ g (g.abort t)
    unfold Gate.abort
    split_ifs
    · exact frees_cancelWaiter g t _
    · exact Frees.refl g
  | close reason =>
    change Frees ∅ g (g.close reason)
    unfold Gate.close
    split_ifs
    · exact Frees.refl g
    · refine Frees.then (Calm.frees ?_) (frees_continueClose reason _ _)
      exact Calm.of_same rfl rfl rfl
  | hookReturns => exact absurd rfl hevent
  | timeout t =>
    change Frees ∅ g (g.timeout t)
    unfold Gate.timeout
    split
    · split_ifs
      · exact frees_cancelWaiter g t _
      · exact Frees.refl g
    · exact Frees.refl g
  | callTask t =>
    change Frees ∅ g (g.callTask t)
    unfold Gate.callTask
    split_ifs with hready
    · exact (calm_setTask (by rw [hready.2.2]; rfl) rfl).frees
    · exact Frees.refl g
  | taskSettles t result =>
    change Frees ∅ g (g.taskSettles t result)
    unfold Gate.taskSettles
    split_ifs with hready
    · exact (calm_setTask (by rw [hready.2.2]; rfl) rfl).frees
    · exact Frees.refl g
  | beforeReleaseSettles t hookThrew =>
    change Frees ∅ g (g.beforeReleaseSettles t hookThrew)
    unfold Gate.beforeReleaseSettles
    split
    · rename_i result hstack hphase
      split_ifs with ht
      · rw [release_eq_put]
        refine Calm.frees ⟨by rw [hstack]; rfl, rfl, fun u => ?_⟩
        by_cases hut : u = t
        · subst hut
          rw [put_tasks_self, hphase]
          exact Or.inr ⟨rfl, rfl⟩
        · exact Or.inl (put_tasks_of_ne hut)
      · exact Frees.refl g
    · exact Frees.refl g
  | cleanupMicrotask key s =>
    change Frees ∅ g (g.cleanupMicrotask key s)
    unfold Gate.cleanupMicrotask
    split_ifs
    · refine Calm.frees ?_
      exact Calm.of_same rfl rfl rfl
    · refine Calm.frees ?_
      exact Calm.of_same rfl rfl rfl
    · exact Frees.refl g

/-- A cancelled task is let go when its hook returns. -/
theorem GateInv.cancelHook_frees (h : GateInv g) (hhooks : CancelHooks g) {below : List GateFrame}
    (hstack : g.stack = .cancelHook t :: below) : Frees {t} g g.hookReturns := by
  obtain ⟨-, hdrains, -⟩ := h.popDrain hstack rfl rfl
  have hnodup := hhooks.nodup
  rw [hstack, cancelling_cancelHook, List.nodup_cons] at hnodup
  have hpop : Frees {t} g { g with stack := below } := by
    have hmem : ∀ u, u ∈ cancelling g.stack ↔ u = t ∨ u ∈ cancelling below := by
      intro u
      rw [hstack, cancelling_cancelHook, List.mem_cons]
    refine ⟨le_rfl, fun u _ => ?_, fun _ _ => Iff.rfl, fun u hu hu' => absurd hu' (not_lt.mpr hu),
      fun _ => ⟨hnodup.2, fun u hu => hhooks.cancelled u ((hmem u).mpr (Or.inr hu))⟩⟩
    by_cases hut : u = t
    · refine iff_of_true (Or.inr ⟨?_, hut ▸ hnodup.1⟩) (Or.inr hut)
      exact hhooks.cancelled u ((hmem u).mpr (Or.inl hut))
    · have hsame : ({ g with stack := below } : Gate).freed u ↔ g.freed u := by
        refine freed_congr rfl ?_
        rw [hmem]
        exact (or_iff_right hut).symm
      rw [hsame]
      exact (or_iff_left hut).symm
  unfold Gate.hookReturns
  rw [hstack]
  exact (hpop.then hdrains.calm.frees).then (frees_resume _)

/-- A task is let go when its `onRelease` returns. -/
theorem GateInv.releaseHook_frees (h : GateInv g) {outcome : GateOutcome} {below : List GateFrame}
    (hstack : g.stack = .releaseHook t outcome :: below) : Frees {t} g g.hookReturns := by
  obtain ⟨-, hdrains, -⟩ := h.popDrain hstack rfl rfl
  obtain ⟨ht, hphase⟩ := h.of_releasing t (hstack ▸ List.mem_cons_self)
  have hkept := hdrains.kept t (by simp [hphase])
  have hpop : Frees ∅ g { g with stack := below } := by
    refine Calm.frees (Calm.of_same ?_ rfl rfl)
    rw [hstack, cancelling_releaseHook]
  have hdrained := hpop.then hdrains.calm.frees
  unfold Gate.hookReturns
  rw [hstack]
  dsimp only
  have hopen : ((Gate.drain { g with stack := below } (g.tasks t).key
      (g.tasks t).state).tasks t).phase = .releasing := by
    rw [hkept]
    exact hphase
  have hnext := hdrains.nextTask
  generalize Gate.drain { g with stack := below } (g.tasks t).key (g.tasks t).state = g'
    at hdrained hopen hnext ⊢
  have hsettle : Frees {t} g' (g'.settle t .done outcome) := by
    have hother : ∀ u, u ≠ t → (g'.settle t .done outcome).tasks u = g'.tasks u :=
      fun u hu => setTask_tasks_of_ne hu
    have hself : ((g'.settle t .done outcome).tasks t).phase = .done := by
      rw [Gate.settle, setTask_tasks_self]
    refine ⟨le_rfl, fun u _ => ?_, fun u _ => ?_, fun u hu hu' => absurd hu' (not_lt.mpr hu),
      fun hhooks => ⟨hhooks.nodup, fun u hu => ?_⟩⟩
    · by_cases hut : u = t
      · exact iff_of_true (Or.inl (hut ▸ hself)) (Or.inr hut)
      · rw [freed_congr (hother u hut) Iff.rfl]
        exact (or_iff_left hut).symm
    · by_cases hut : u = t
      · subst hut
        rw [hself, hopen]
        exact iff_of_false (fun hr => by cases hr) (fun hr => by cases hr)
      · rw [hother u hut]
    · have hcancelled := hhooks.cancelled u hu
      have hut : u ≠ t := by
        rintro rfl
        rw [hopen] at hcancelled
        cases hcancelled
      rw [hother u hut]
      exact hcancelled
  refine (hdrained.after hsettle fun u hu => ?_).then (frees_resume _)
  obtain rfl := Set.mem_singleton_iff.mp hu
  exact ht

end Gate

/-! ## 2. Barrier sets -/

section Sets

variable {barriers : BarrierSets} {key other : String} {r r' : ℕ}

theorem mem_addRelease :
    r' ∈ activeReleases (addRelease barriers key r) other ↔
      r' ∈ activeReleases barriers other ∨ (other = key ∧ r' = r) := by
  unfold addRelease activeReleases
  by_cases hkey : other = key
  · subst hkey
    simp [AList.lookup_insert]
  · rw [AList.lookup_insert_ne hkey]
    simp [hkey]

theorem mem_deleteRelease :
    r' ∈ activeReleases (deleteRelease barriers key r) other ↔
      r' ∈ activeReleases barriers other ∧ ¬ (other = key ∧ r' = r) := by
  unfold deleteRelease activeReleases
  cases hactive : barriers.lookup key with
  | none =>
    dsimp only
    refine (and_iff_left_of_imp fun hmem => ?_).symm
    rintro ⟨rfl, -⟩
    rw [hactive] at hmem
    cases hmem
  | some active =>
    dsimp only
    by_cases hkey : other = key
    · subst hkey
      rw [hactive]
      split_ifs with hempty
      · rw [AList.lookup_erase]
        have hall := List.filter_eq_nil_iff.mp hempty
        simp only [Option.getD_none, List.not_mem_nil, Option.getD_some, true_and, false_iff,
          not_and, not_not]
        intro hmem
        simpa using hall r' hmem
      · simp [AList.lookup_insert, List.mem_filter]
    · simp only [hkey, false_and, not_false_eq_true, and_true]
      split_ifs
      · rw [AList.lookup_erase_ne hkey]
      · rw [AList.lookup_insert_ne hkey]

end Sets

/-- The sets hold the releases that are not resolved, each under its own key, and a write closes
over the releases it has registered. -/
structure BarrierSound (rg : ResourceGate) : Prop where
  sets : ∀ key r, r ∈ activeReleases rg.barriers key ↔
    r < rg.nextRelease ∧ (rg.releases r).barrierKey = key ∧ (rg.releases r).resolved = none
  owner : ∀ t r, r ∈ rg.releasesOf t ↔ r < rg.nextRelease ∧ (rg.releases r).task = t

/-- What the registration of some barriers for a write does. -/
structure Registers (t : ℕ) (keys : List String) (rg rg' : ResourceGate) : Prop where
  sound : BarrierSound rg'
  nextRelease : rg.nextRelease ≤ rg'.nextRelease
  old : ∀ r < rg.nextRelease, rg'.releases r = rg.releases r
  new : ∀ r, rg.nextRelease ≤ r → r < rg'.nextRelease →
    (rg'.releases r).task = t ∧ (rg'.releases r).resolved = none
  keys : ∀ key ∈ keys, ∃ r, rg.nextRelease ≤ r ∧ r < rg'.nextRelease ∧
    (rg'.releases r).barrierKey = key
  caught : rg'.caught = rg.caught
  waits : rg'.waits = rg.waits
  nextWait : rg'.nextWait = rg.nextWait
  name : rg'.name = rg.name

/-- What `#releaseBarriers` does. -/
structure Resolves (releases : List ℕ) (rg rg' : ResourceGate) : Prop where
  sound : BarrierSound rg'
  nextRelease : rg'.nextRelease = rg.nextRelease
  same : ∀ r, (rg'.releases r).task = (rg.releases r).task ∧
    (rg'.releases r).barrierKey = (rg.releases r).barrierKey
  resolved : ∀ r, (rg'.releases r).resolved.isSome = true ↔
    (rg.releases r).resolved.isSome = true ∨ r ∈ releases
  caught : rg'.caught = rg.caught
  waits : rg'.waits = rg.waits
  nextWait : rg'.nextWait = rg.nextWait
  gate : rg'.gate = rg.gate
  name : rg'.name = rg.name

section Barriers

variable {rg : ResourceGate}

theorem BarrierSound.registerBarrier (h : BarrierSound rg) (t : ℕ) (normalizedKey : String)
    (call : WriteCall) (key : String) :
    Registers t [key] rg (rg.registerBarrier t normalizedKey call key) := by
  have hold : ∀ r < rg.nextRelease,
      (rg.registerBarrier t normalizedKey call key).releases r = rg.releases r := by
    intro r hr
    simp [ResourceGate.registerBarrier, hr.ne]
  have hnew : ((rg.registerBarrier t normalizedKey call key).releases rg.nextRelease).task = t ∧
      ((rg.registerBarrier t normalizedKey call key).releases rg.nextRelease).resolved = none ∧
      ((rg.registerBarrier t normalizedKey call key).releases rg.nextRelease).barrierKey = key := by
    simp [ResourceGate.registerBarrier]
  have hlt : ∀ r, r < (rg.registerBarrier t normalizedKey call key).nextRelease ↔
      r < rg.nextRelease ∨ r = rg.nextRelease := by
    intro r
    change r < rg.nextRelease + 1 ↔ _
    omega
  refine ⟨⟨fun other r => ?_, fun u r => ?_⟩, Nat.le_succ _, hold, fun r hr hr' => ?_, fun k hk => ?_,
    rfl, rfl, rfl, rfl⟩
  · rw [hlt]
    change r ∈ activeReleases (addRelease rg.barriers key rg.nextRelease) other ↔ _
    rw [mem_addRelease, h.sets]
    by_cases hr : r = rg.nextRelease
    · subst hr
      rw [hnew.2.1, hnew.2.2]
      simp [eq_comm]
    · by_cases hr' : r < rg.nextRelease
      · rw [hold r hr']
        simp [hr, hr']
      · simp [hr, hr']
  · rw [hlt]
    change r ∈ Function.update rg.releasesOf t (rg.releasesOf t ++ [rg.nextRelease]) u ↔ _
    by_cases hr : r = rg.nextRelease
    · subst hr
      rw [hnew.1]
      by_cases hu : u = t
      · subst hu
        simp
      · rw [Function.update_of_ne hu, h.owner]
        simp [Ne.symm hu]
    · have hmem : r ∈ Function.update rg.releasesOf t (rg.releasesOf t ++ [rg.nextRelease]) u ↔
          r ∈ rg.releasesOf u := by
        by_cases hu : u = t
        · subst hu
          simp [hr]
        · rw [Function.update_of_ne hu]
      rw [hmem, h.owner]
      by_cases hr' : r < rg.nextRelease
      · rw [hold r hr']
        simp [hr']
      · simp [hr, hr']
  · obtain rfl : r = rg.nextRelease := ((hlt r).mp hr').resolve_left (not_lt.mpr hr)
    exact ⟨hnew.1, hnew.2.1⟩
  · obtain rfl := List.mem_singleton.mp hk
    exact ⟨rg.nextRelease, le_rfl, (hlt _).mpr (Or.inr rfl), hnew.2.2⟩

theorem Registers.trans {t : ℕ} {keys keys' : List String} {a b c : ResourceGate}
    (h : Registers t keys a b) (h' : Registers t keys' b c) : Registers t (keys ++ keys') a c := by
  refine ⟨h'.sound, h.nextRelease.trans h'.nextRelease, fun r hr => ?_, fun r hr hr' => ?_,
    fun k hk => ?_, h'.caught.trans h.caught, h'.waits.trans h.waits,
    h'.nextWait.trans h.nextWait, h'.name.trans h.name⟩
  · rw [h'.old r (hr.trans_le h.nextRelease), h.old r hr]
  · by_cases hb : r < b.nextRelease
    · rw [h'.old r hb]
      exact h.new r hr hb
    · exact h'.new r (not_lt.mp hb) hr'
  · rcases List.mem_append.mp hk with hk | hk
    · obtain ⟨r, hr, hr', hkey⟩ := h.keys k hk
      exact ⟨r, hr, hr'.trans_le h'.nextRelease, by rw [h'.old r hr', hkey]⟩
    · obtain ⟨r, hr, hr', hkey⟩ := h'.keys k hk
      exact ⟨r, h.nextRelease.trans hr, hr', hkey⟩

theorem registerBarriers_spec (t : ℕ) (normalizedKey : String) (call : WriteCall)
    (keys : List String) : ∀ {rg : ResourceGate}, BarrierSound rg →
    Registers t keys rg (keys.foldl (ResourceGate.registerBarrier t normalizedKey call) rg) := by
  induction keys with
  | nil =>
    intro rg h
    exact ⟨h, le_rfl, fun _ _ => rfl, fun r hr hr' => absurd hr' (not_lt.mpr hr), by simp, rfl, rfl,
      rfl, rfl⟩
  | cons key keys ih =>
    intro rg h
    have hfirst := h.registerBarrier t normalizedKey call key
    exact hfirst.trans (ih hfirst.sound)

theorem BarrierSound.releaseBarrier (h : BarrierSound rg) (status : ReleaseStatus) (r : ℕ) :
    Resolves [r] rg (rg.releaseBarrier status r) := by
  have hself : ((rg.releaseBarrier status r).releases r).resolved =
      some ((rg.releases r).resolved.getD status) := by
    simp [ResourceGate.releaseBarrier]
  have hother : ∀ u, u ≠ r → (rg.releaseBarrier status r).releases u = rg.releases u := by
    intro u hu
    simp [ResourceGate.releaseBarrier, hu]
  have hsame : ∀ u, ((rg.releaseBarrier status r).releases u).task = (rg.releases u).task ∧
      ((rg.releaseBarrier status r).releases u).barrierKey = (rg.releases u).barrierKey := by
    intro u
    by_cases hu : u = r
    · subst hu
      simp [ResourceGate.releaseBarrier]
    · rw [hother u hu]
      exact ⟨rfl, rfl⟩
  refine ⟨⟨fun key u => ?_, fun t u => ?_⟩, rfl, hsame, fun u => ?_, rfl, rfl, rfl, rfl, rfl⟩
  · change u ∈ activeReleases (deleteRelease rg.barriers (rg.releases r).barrierKey r) key ↔
      u < rg.nextRelease ∧ _
    rw [mem_deleteRelease, h.sets, (hsame u).2]
    by_cases hu : u = r
    · subst hu
      rw [hself]
      refine iff_of_false (fun hin => hin.2 ⟨hin.1.2.1.symm, rfl⟩) ?_
      rintro ⟨-, -, hnone⟩
      cases hnone
    · rw [hother u hu]
      simp [hu]
  · rw [(hsame u).1]
    exact h.owner t u
  · by_cases hu : u = r
    · subst hu
      rw [hself]
      simp
    · rw [hother u hu]
      simp [hu]

theorem releaseBarriers_spec (status : ReleaseStatus) (releases : List ℕ) :
    ∀ {rg : ResourceGate}, BarrierSound rg →
    Resolves releases rg (rg.releaseBarriers releases status) := by
  induction releases with
  | nil =>
    intro rg h
    exact ⟨h, rfl, fun _ => ⟨rfl, rfl⟩, by simp [ResourceGate.releaseBarriers], rfl, rfl, rfl, rfl, rfl⟩
  | cons r releases ih =>
    intro rg h
    have hfirst := h.releaseBarrier status r
    have hrest := ih hfirst.sound
    refine ⟨hrest.sound, hrest.nextRelease.trans hfirst.nextRelease, fun u => ?_, fun u => ?_,
      hrest.caught.trans hfirst.caught, hrest.waits.trans hfirst.waits,
      hrest.nextWait.trans hfirst.nextWait, hrest.gate.trans hfirst.gate,
      hrest.name.trans hfirst.name⟩
    · exact ⟨(hrest.same u).1.trans (hfirst.same u).1, (hrest.same u).2.trans (hfirst.same u).2⟩
    · change ((ResourceGate.releaseBarriers _ releases status).releases u).resolved.isSome = true ↔ _
      rw [hrest.resolved, hfirst.resolved, List.mem_singleton, List.mem_cons, or_assoc]

end Barriers

/-! ## 3. The invariant -/

/-- The write has released the gate, or it has been cancelled and its hook has returned, or it was
rejected by a closed gate and the rejection has been handled. -/
def ResourceGate.hasReleased (rg : ResourceGate) (t : ℕ) : Prop :=
  rg.gate.freed t ∨ ((rg.gate.tasks t).phase = .refused ∧ t ∈ rg.caught)

/-- The invariant of a resource gate. -/
structure BarrierInv (rg : ResourceGate) : Prop extends BarrierSound rg where
  gate : GateInv rg.gate
  hooks : CancelHooks rg.gate
  task : ∀ r < rg.nextRelease, (rg.releases r).task < rg.gate.nextTask
  caught : ∀ t ∈ rg.caught, t < rg.gate.nextTask
  resolved : ∀ r < rg.nextRelease, (rg.releases r).resolved.isSome = true ↔
    rg.hasReleased (rg.releases r).task
  captured : ∀ w < rg.nextWait, ∀ r ∈ (rg.waits w).captured, r < rg.nextRelease
  waits : ∀ w < rg.nextWait, (rg.waits w).outcome = some .idle ∨
    (rg.waits w).outcome = some .released →
    ∀ r ∈ (rg.waits w).captured, (rg.releases r).resolved.isSome = true

section Steps

variable {rg : ResourceGate}

/-- The gate steps and lets nothing go. -/
theorem BarrierInv.of_frees (h : BarrierInv rg) {g' : Gate} (hgate : GateInv g')
    (hfrees : Frees ∅ rg.gate g') : BarrierInv { rg with gate := g' } := by
  refine ⟨⟨h.sets, h.owner⟩, hgate, hfrees.hooks h.hooks,
    fun r hr => (h.task r hr).trans_le hfrees.nextTask,
    fun t ht => (h.caught t ht).trans_le hfrees.nextTask, fun r hr => ?_, h.captured, h.waits⟩
  have ht := h.task r hr
  refine (h.resolved r hr).trans ?_
  unfold ResourceGate.hasReleased
  rw [hfrees.freed _ ht, hfrees.refused _ ht]
  simp

/-- A hook has returned, its task is let go, and its barriers are resolved. -/
theorem BarrierInv.of_release (h : BarrierInv rg) {g' : Gate} {t : ℕ} (hgate : GateInv g')
    (hfrees : Frees {t} rg.gate g') (status : ReleaseStatus) :
    BarrierInv { rg.releaseBarriers (rg.releasesOf t) status with gate := g' } := by
  have hspec := releaseBarriers_spec status (rg.releasesOf t) h.toBarrierSound
  generalize rg.releaseBarriers (rg.releasesOf t) status = rg' at hspec ⊢
  have hbound : ∀ r, r < rg'.nextRelease ↔ r < rg.nextRelease := by
    intro r
    rw [hspec.nextRelease]
  refine ⟨⟨hspec.sound.sets, hspec.sound.owner⟩, hgate, hfrees.hooks h.hooks, fun r hr => ?_,
    fun u hu => ?_, fun r hr => ?_, fun w hw r hr => ?_, fun w hw hout r hr => ?_⟩
  · rw [(hspec.same r).1]
    exact (h.task r ((hbound r).mp hr)).trans_le hfrees.nextTask
  · exact (h.caught u (hspec.caught ▸ hu)).trans_le hfrees.nextTask
  · have hr' := (hbound r).mp hr
    have ht := h.task r hr'
    change (rg'.releases r).resolved.isSome = true ↔ _
    rw [hspec.resolved, h.owner, h.resolved r hr', (hspec.same r).1]
    unfold ResourceGate.hasReleased
    dsimp only
    rw [hfrees.freed _ ht, hfrees.refused _ ht, hspec.caught, Set.mem_singleton_iff]
    tauto
  · change w < rg'.nextWait at hw
    change r ∈ (rg'.waits w).captured at hr
    change r < rg'.nextRelease
    rw [hspec.waits] at hr
    rw [hspec.nextRelease]
    exact h.captured w (hspec.nextWait ▸ hw) r hr
  · change w < rg'.nextWait at hw
    change (rg'.waits w).outcome = _ ∨ (rg'.waits w).outcome = _ at hout
    change r ∈ (rg'.waits w).captured at hr
    rw [hspec.waits] at hout hr
    exact (hspec.resolved r).mpr (Or.inl (h.waits w (hspec.nextWait ▸ hw) hout r hr))

theorem BarrierInv.hookReturns (h : BarrierInv rg) : BarrierInv rg.hookReturns := by
  unfold ResourceGate.hookReturns
  have hgate := h.gate.hookReturns
  split
  · rename_i t below hstack
    exact h.of_release hgate (h.gate.cancelHook_frees h.hooks hstack) _
  · rename_i t outcome below hstack
    exact h.of_release hgate (h.gate.releaseHook_frees hstack) _
  · rename_i hcancel hrelease
    have hsame : rg.gate.hookReturns = rg.gate := by
      unfold Gate.hookReturns
      split
      · rename_i t below hstack
        exact absurd hstack (hcancel t below)
      · rename_i t outcome below hstack
        exact absurd hstack (hrelease t outcome below)
      · rfl
    rw [hsame]
    exact h

/-- The handler of a rejection: what was cancelled is resolved already. -/
theorem BarrierInv.catchRejection (h : BarrierInv rg) (t : ℕ) : BarrierInv (rg.catchRejection t) := by
  unfold ResourceGate.catchRejection
  split_ifs with hready
  swap
  · exact h
  obtain ⟨hstack, ht, hrejected, -⟩ := hready
  have hspec := releaseBarriers_spec .rejected (rg.releasesOf t) h.toBarrierSound
  generalize rg.releaseBarriers (rg.releasesOf t) .rejected = rg' at hspec ⊢
  have hgate := hspec.gate
  have hphase : rg.gate.freed t ∨ (rg.gate.tasks t).phase = .refused := by
    have hsettled := h.gate.settled t ht
    have hopen : (rg.gate.tasks t).phase.settlements ≠ 0 := by
      intro hzero
      rw [hzero, List.length_eq_zero_iff] at hsettled
      rw [GateTask.rejected, hsettled] at hrejected
      cases hrejected
    unfold Gate.freed
    rw [hstack, cancelling_nil]
    cases hp : (rg.gate.tasks t).phase <;> simp [hp, TaskPhase.settlements] at hopen ⊢
  refine ⟨⟨hspec.sound.sets, hspec.sound.owner⟩, hgate ▸ h.gate, hgate ▸ h.hooks, fun r hr => ?_,
    fun u hu => ?_, fun r hr => ?_, fun w hw r hr => ?_, fun w hw hout r hr => ?_⟩
  · change (rg'.releases r).task < rg'.gate.nextTask
    rw [(hspec.same r).1, hgate]
    exact h.task r (hspec.nextRelease ▸ hr)
  · change u < rg'.gate.nextTask
    rw [hgate]
    rcases List.mem_cons.mp hu with rfl | hold
    · exact ht
    · exact h.caught u hold
  · have hr' : r < rg.nextRelease := hspec.nextRelease ▸ hr
    change (rg'.releases r).resolved.isSome = true ↔ _
    rw [hspec.resolved, h.owner, h.resolved r hr', (hspec.same r).1]
    unfold ResourceGate.hasReleased
    change _ ↔ rg'.gate.freed _ ∨ ((rg'.gate.tasks _).phase = .refused ∧ _ ∈ t :: rg.caught)
    rw [hgate, List.mem_cons]
    by_cases htask : (rg.releases r).task = t
    · rw [htask]
      refine iff_of_true (Or.inr ⟨hr', rfl⟩) (hphase.imp id fun hrefused => ⟨hrefused, Or.inl rfl⟩)
    · simp [htask]
  · change w < rg'.nextWait at hw
    change r ∈ (rg'.waits w).captured at hr
    change r < rg'.nextRelease
    rw [hspec.waits] at hr
    rw [hspec.nextRelease]
    exact h.captured w (hspec.nextWait ▸ hw) r hr
  · change w < rg'.nextWait at hw
    change (rg'.waits w).outcome = _ ∨ (rg'.waits w).outcome = _ at hout
    change r ∈ (rg'.waits w).captured at hr
    rw [hspec.waits] at hout hr
    exact (hspec.resolved r).mpr (Or.inl (h.waits w (hspec.nextWait ▸ hw) hout r hr))

/-- `write`: its barriers are new, and its task has not been let go. -/
theorem BarrierInv.write (h : BarrierInv rg) (normalizeKey : Option String → String)
    (call : WriteCall) : BarrierInv (rg.write normalizeKey call) := by
  unfold ResourceGate.write ResourceGate.registerBlockingBarriers Gate.runBlocking
  dsimp only
  have hspec := registerBarriers_spec rg.gate.nextTask (normalizeKey call.key) call
    (rg.barrierKeys (normalizeKey call.key) call.barrierKey) h.toBarrierSound
  generalize (rg.barrierKeys (normalizeKey call.key) call.barrierKey).foldl _ rg = rg' at hspec ⊢
  generalize hcall : GateCall.mk _ _ _ _ _ _ _ = gateCall
  have hgate := h.gate.enqueue gateCall
  have hfrees := h.gate.enqueue_frees gateCall
  have hnext := enqueue_nextTask rg.gate gateCall
  generalize rg.gate.enqueue gateCall = g' at hgate hfrees hnext ⊢
  have hnew : ¬ g'.freed rg.gate.nextTask :=
    hfrees.fresh _ le_rfl (by rw [hnext]; exact Nat.lt_succ_self _)
  refine ⟨⟨hspec.sound.sets, hspec.sound.owner⟩, hgate, hfrees.hooks h.hooks, fun r hr => ?_,
    fun u hu => ?_, fun r hr => ?_, fun w hw r hr => ?_, fun w hw hout r hr => ?_⟩
  · change (rg'.releases r).task < g'.nextTask
    rw [hnext]
    by_cases hold : r < rg.nextRelease
    · rw [hspec.old r hold]
      exact (h.task r hold).trans (Nat.lt_succ_self _)
    · rw [(hspec.new r (not_lt.mp hold) hr).1]
      exact Nat.lt_succ_self _
  · exact (h.caught u (hspec.caught ▸ hu)).trans_le hfrees.nextTask
  · change (rg'.releases r).resolved.isSome = true ↔ _
    unfold ResourceGate.hasReleased
    dsimp only
    rw [hspec.caught]
    by_cases hold : r < rg.nextRelease
    · have ht := h.task r hold
      rw [hspec.old r hold, h.resolved r hold, hfrees.freed _ ht, hfrees.refused _ ht]
      simp [ResourceGate.hasReleased]
    · obtain ⟨htask, hopen⟩ := hspec.new r (not_lt.mp hold) hr
      rw [hopen, htask]
      refine iff_of_false (fun hnone => by cases hnone) ?_
      rintro (hfreed | ⟨-, hcaught⟩)
      · exact hnew hfreed
      · exact lt_irrefl _ (h.caught _ hcaught)
  · change w < rg'.nextWait at hw
    change r ∈ (rg'.waits w).captured at hr
    rw [hspec.waits] at hr
    exact (h.captured w (hspec.nextWait ▸ hw) r hr).trans_le hspec.nextRelease
  · change w < rg'.nextWait at hw
    change (rg'.waits w).outcome = _ ∨ (rg'.waits w).outcome = _ at hout
    change r ∈ (rg'.waits w).captured at hr
    rw [hspec.waits] at hout hr
    change (rg'.releases r).resolved.isSome = true
    rw [hspec.old r (h.captured w (hspec.nextWait ▸ hw) r hr)]
    exact h.waits w (hspec.nextWait ▸ hw) hout r hr

/-- What a wait captures is what is registered under its keys and not resolved. -/
theorem BarrierSound.mem_captured (h : BarrierSound rg) {keys : List String} {r : ℕ} :
    r ∈ rg.capturedReleases keys ↔ r < rg.nextRelease ∧ (rg.releases r).barrierKey ∈ keys ∧
      (rg.releases r).resolved = none := by
  unfold ResourceGate.capturedReleases
  rw [List.mem_flatMap]
  constructor
  · rintro ⟨key, hkey, hr⟩
    obtain ⟨hlt, rfl, hopen⟩ := (h.sets key r).mp hr
    exact ⟨hlt, hkey, hopen⟩
  · rintro ⟨hlt, hkey, hopen⟩
    exact ⟨_, hkey, (h.sets _ r).mpr ⟨hlt, rfl, hopen⟩⟩

theorem BarrierInv.waitForRelease (h : BarrierInv rg) (normalizeKey : Option String → String)
    (key : Option String) (waitMs : Option ℕ) :
    BarrierInv (rg.waitForRelease normalizeKey key waitMs) := by
  have hold : ∀ w < rg.nextWait,
      (rg.waitForRelease normalizeKey key waitMs).waits w = rg.waits w := by
    intro w hw
    simp [ResourceGate.waitForRelease, hw.ne]
  have hcases : ∀ w, w < (rg.waitForRelease normalizeKey key waitMs).nextWait →
      w < rg.nextWait ∨ w = rg.nextWait := by
    intro w hw
    change w < rg.nextWait + 1 at hw
    omega
  have hself : ((rg.waitForRelease normalizeKey key waitMs).waits rg.nextWait).captured =
      rg.capturedReleases (rg.releaseLookupKeys normalizeKey key) := by
    simp [ResourceGate.waitForRelease]
  refine ⟨⟨h.sets, h.owner⟩, h.gate, h.hooks, h.task, h.caught, h.resolved, fun w hw r hr => ?_,
    fun w hw hout r hr => ?_⟩
  · rcases hcases w hw with hlt | rfl
    · rw [hold w hlt] at hr
      exact h.captured w hlt r hr
    · rw [hself] at hr
      exact (h.mem_captured.mp hr).1
  · rcases hcases w hw with hlt | rfl
    · rw [hold w hlt] at hout hr
      exact h.waits w hlt hout r hr
    · have hidle : rg.capturedReleases (rg.releaseLookupKeys normalizeKey key) = [] := by
        by_contra hsome
        simp [ResourceGate.waitForRelease, hsome] at hout
      rw [hself, hidle] at hr
      cases hr

/-- A wait that settles. -/
theorem BarrierInv.settleWait (h : BarrierInv rg) {w : ℕ} {outcome : WaitOutcome}
    (hready : outcome = .timedOut ∨
      ∀ r ∈ (rg.waits w).captured, (rg.releases r).resolved.isSome = true) :
    BarrierInv { rg with
      waits := Function.update rg.waits w { rg.waits w with outcome := some outcome } } := by
  refine ⟨⟨h.sets, h.owner⟩, h.gate, h.hooks, h.task, h.caught, h.resolved, fun v hv r hr => ?_,
    fun v hv hout r hr => ?_⟩
  · by_cases hvw : v = w
    · subst hvw
      simp only [Function.update_self] at hr
      exact h.captured v hv r hr
    · simp only [Function.update_of_ne hvw] at hr
      exact h.captured v hv r hr
  · by_cases hvw : v = w
    · subst hvw
      simp only [Function.update_self, Option.some.injEq] at hr hout
      rcases hready with htimed | hall
      · rw [htimed] at hout
        rcases hout with hout | hout <;> cases hout
      · exact hall r hr
    · simp only [Function.update_of_ne hvw] at hr hout
      exact h.waits v hv hout r hr

/-- **The step.**  Every event keeps the invariant. -/
theorem BarrierInv.step (h : BarrierInv rg) (normalizeKey : Option String → String)
    (event : ResourceEvent) : BarrierInv (resourceStep normalizeKey rg event) := by
  cases event with
  | write call => exact h.write normalizeKey call
  | writeWithRelease call => exact (h.write normalizeKey _).waitForRelease normalizeKey _ _
  | waitForRelease key waitMs => exact h.waitForRelease normalizeKey key waitMs
  | gate event =>
    by_cases hevent : event = .hookReturns
    · subst hevent
      exact h.hookReturns
    · have hstep : resourceStep normalizeKey rg (.gate event) =
          { rg with gate := assetGateStep rg.gate event } := by
        cases event <;> first | rfl | exact absurd rfl hevent
      rw [hstep]
      exact h.of_frees (h.gate.step event) (h.gate.step_frees hevent)
  | catchRejection t => exact h.catchRejection t
  | waitSettles w =>
    change BarrierInv (rg.waitSettles w)
    unfold ResourceGate.waitSettles
    split_ifs with hready
    · exact h.settleWait (Or.inr hready.2.2.2)
    · exact h
  | waitTimeout w =>
    change BarrierInv (rg.waitTimeout w)
    unfold ResourceGate.waitTimeout
    split_ifs
    · exact h.settleWait (Or.inl rfl)
    · exact h

end Steps

/-! ## 4. What stays -/

/-- Releases keep their write and their key, and stay resolved; waits keep what they wait for. -/
structure BarrierLater (rg rg' : ResourceGate) : Prop where
  nextRelease : rg.nextRelease ≤ rg'.nextRelease
  nextWait : rg.nextWait ≤ rg'.nextWait
  same : ∀ r < rg.nextRelease, (rg'.releases r).task = (rg.releases r).task ∧
    (rg'.releases r).barrierKey = (rg.releases r).barrierKey
  resolved : ∀ r < rg.nextRelease, (rg.releases r).resolved.isSome = true →
    (rg'.releases r).resolved.isSome = true
  captured : ∀ w < rg.nextWait, (rg'.waits w).captured = (rg.waits w).captured

theorem BarrierLater.refl (rg : ResourceGate) : BarrierLater rg rg :=
  ⟨le_rfl, le_rfl, fun _ _ => ⟨rfl, rfl⟩, fun _ _ => id, fun _ _ => rfl⟩

theorem BarrierLater.trans {a b c : ResourceGate} (h : BarrierLater a b) (h' : BarrierLater b c) :
    BarrierLater a c := by
  refine ⟨h.nextRelease.trans h'.nextRelease, h.nextWait.trans h'.nextWait, fun r hr => ?_,
    fun r hr hresolved => ?_, fun w hw => ?_⟩
  · obtain ⟨htask, hkey⟩ := h.same r hr
    obtain ⟨htask', hkey'⟩ := h'.same r (hr.trans_le h.nextRelease)
    exact ⟨htask'.trans htask, hkey'.trans hkey⟩
  · exact h'.resolved r (hr.trans_le h.nextRelease) (h.resolved r hr hresolved)
  · rw [h'.captured w (hw.trans_le h.nextWait), h.captured w hw]

section Later

variable {rg rg' : ResourceGate}

/-- Nothing but the gate and the handled rejections changes. -/
theorem BarrierLater.of_same (hreleases : rg'.releases = rg.releases)
    (hnextRelease : rg'.nextRelease = rg.nextRelease) (hwaits : rg'.waits = rg.waits)
    (hnextWait : rg'.nextWait = rg.nextWait) : BarrierLater rg rg' := by
  refine ⟨hnextRelease.ge, hnextWait.ge, fun r _ => ?_, fun r _ => ?_, fun w _ => ?_⟩
  · rw [hreleases]
    exact ⟨rfl, rfl⟩
  · rw [hreleases]
    exact id
  · rw [hwaits]

theorem Resolves.later {releases : List ℕ} (h : Resolves releases rg rg') : BarrierLater rg rg' := by
  refine ⟨h.nextRelease.ge, h.nextWait.ge, fun r _ => h.same r, fun r _ hresolved => ?_, fun w _ => ?_⟩
  · exact (h.resolved r).mpr (Or.inl hresolved)
  · rw [h.waits]

theorem Registers.later {t : ℕ} {keys : List String} (h : Registers t keys rg rg') :
    BarrierLater rg rg' := by
  refine ⟨h.nextRelease, h.nextWait.ge, fun r hr => ?_, fun r hr hresolved => ?_, fun w _ => ?_⟩
  · rw [h.old r hr]
    exact ⟨rfl, rfl⟩
  · rw [h.old r hr]
    exact hresolved
  · rw [h.waits]

theorem BarrierSound.write_later (h : BarrierSound rg) (normalizeKey : Option String → String)
    (call : WriteCall) : BarrierLater rg (rg.write normalizeKey call) := by
  have hspec := registerBarriers_spec rg.gate.nextTask (normalizeKey call.key) call
    (rg.barrierKeys (normalizeKey call.key) call.barrierKey) h
  refine hspec.later.trans ?_
  exact BarrierLater.of_same rfl rfl rfl rfl

theorem waitForRelease_later (rg : ResourceGate) (normalizeKey : Option String → String)
    (key : Option String) (waitMs : Option ℕ) :
    BarrierLater rg (rg.waitForRelease normalizeKey key waitMs) := by
  refine ⟨le_rfl, Nat.le_succ _, fun _ _ => ⟨rfl, rfl⟩, fun _ _ => id, fun w hw => ?_⟩
  simp [ResourceGate.waitForRelease, hw.ne]

theorem settleWait_later (rg : ResourceGate) (w : ℕ) (outcome : WaitOutcome) :
    BarrierLater rg { rg with
      waits := Function.update rg.waits w { rg.waits w with outcome := some outcome } } := by
  refine ⟨le_rfl, le_rfl, fun _ _ => ⟨rfl, rfl⟩, fun _ _ => id, fun v _ => ?_⟩
  by_cases hvw : v = w
  · subst hvw
    simp
  · simp [hvw]

/-- A hook returns, or a rejection is handled: some barriers are resolved, and other parts of the
gate change. -/
theorem BarrierSound.releaseBarriers_later (h : BarrierSound rg) (releases : List ℕ)
    (status : ReleaseStatus) (hreleases : rg'.releases = (rg.releaseBarriers releases status).releases)
    (hnextRelease : rg'.nextRelease = (rg.releaseBarriers releases status).nextRelease)
    (hwaits : rg'.waits = (rg.releaseBarriers releases status).waits)
    (hnextWait : rg'.nextWait = (rg.releaseBarriers releases status).nextWait) :
    BarrierLater rg rg' :=
  (releaseBarriers_spec status releases h).later.trans
    (BarrierLater.of_same hreleases hnextRelease hwaits hnextWait)

theorem BarrierSound.hookReturns_later (h : BarrierSound rg) : BarrierLater rg rg.hookReturns := by
  unfold ResourceGate.hookReturns
  split
  · exact h.releaseBarriers_later _ _ rfl rfl rfl rfl
  · exact h.releaseBarriers_later _ _ rfl rfl rfl rfl
  · exact BarrierLater.of_same rfl rfl rfl rfl

/-- **The step.**  Nothing is forgotten across an event. -/
theorem BarrierInv.step_later (h : BarrierInv rg) (normalizeKey : Option String → String)
    (event : ResourceEvent) : BarrierLater rg (resourceStep normalizeKey rg event) := by
  cases event with
  | write call => exact h.write_later normalizeKey call
  | writeWithRelease call =>
    exact (h.write_later normalizeKey _).trans (waitForRelease_later _ normalizeKey _ _)
  | waitForRelease key waitMs => exact waitForRelease_later rg normalizeKey key waitMs
  | gate event =>
    by_cases hevent : event = .hookReturns
    · subst hevent
      exact h.hookReturns_later
    · have hstep : resourceStep normalizeKey rg (.gate event) =
          { rg with gate := assetGateStep rg.gate event } := by
        cases event <;> first | rfl | exact absurd rfl hevent
      rw [hstep]
      exact BarrierLater.of_same rfl rfl rfl rfl
  | catchRejection t =>
    change BarrierLater rg (rg.catchRejection t)
    unfold ResourceGate.catchRejection
    split_ifs
    · exact h.releaseBarriers_later _ _ rfl rfl rfl rfl
    · exact BarrierLater.refl rg
  | waitSettles w =>
    change BarrierLater rg (rg.waitSettles w)
    unfold ResourceGate.waitSettles
    split_ifs
    · exact settleWait_later rg w _
    · exact BarrierLater.refl rg
  | waitTimeout w =>
    change BarrierLater rg (rg.waitTimeout w)
    unfold ResourceGate.waitTimeout
    split_ifs
    · exact settleWait_later rg w _
    · exact BarrierLater.refl rg

end Later

/-! ## 5. Barriers over whole runs -/

theorem normalizeGateKey_ne_empty (value : Option String) : normalizeGateKey value ≠ "" := by
  unfold normalizeGateKey
  dsimp only
  split_ifs with h
  · decide
  · exact h

theorem defaultBlockingReleaseKey_ne_empty (rg : ResourceGate) (normalizedKey : String) :
    rg.defaultBlockingReleaseKey normalizedKey ≠ "" := by
  intro h
  have hlength := congrArg String.length h
  simp only [ResourceGate.defaultBlockingReleaseKey, String.length_append] at hlength
  have hmiddle : (":blocking:" : String).length = 10 := by decide
  have hempty : ("" : String).length = 0 := by decide
  omega

/-- The two keys that a wait looks up. -/
theorem mem_releaseLookupKeys {rg : ResourceGate} {normalizeKey : Option String → String}
    {key : Option String} {k : String} : k ∈ rg.releaseLookupKeys normalizeKey key ↔
      k = normalizeBarrierKey key ∨ k = rg.defaultBlockingReleaseKey (normalizeKey key) := by
  unfold ResourceGate.releaseLookupKeys
  rw [List.mem_eraseDups, List.mem_filter, List.mem_cons, List.mem_singleton]
  refine and_iff_left_of_imp ?_
  rintro (rfl | rfl)
  · simpa [normalizeBarrierKey] using normalizeGateKey_ne_empty key
  · simpa using defaultBlockingReleaseKey_ne_empty rg (normalizeKey key)

/-- Every write registers a barrier for its resource. -/
theorem default_mem_barrierKeys (rg : ResourceGate) (normalizedKey : String)
    (option : BarrierOption) :
    rg.defaultBlockingReleaseKey normalizedKey ∈ rg.barrierKeys normalizedKey option := by
  unfold ResourceGate.barrierKeys
  rw [List.mem_eraseDups, List.mem_filter]
  refine ⟨List.mem_cons_self, ?_⟩
  simpa using defaultBlockingReleaseKey_ne_empty rg normalizedKey

/-- A resource gate that has just been made. -/
theorem barrierInv_initial (policy : GatePolicy) (name gateName : String) :
    BarrierInv { name := name, gate := { name := gateName, policy := policy } } := by
  refine ⟨⟨fun key r => ?_, by simp⟩, gateInv_initial policy gateName, ⟨List.nodup_nil, by simp⟩,
    by simp, by simp, by simp, by simp, by simp⟩
  simp [activeReleases]

theorem barrierInv_run {rg : ResourceGate} (h : BarrierInv rg)
    (normalizeKey : Option String → String) (events : List ResourceEvent) :
    BarrierInv (Runs.run (resourceStep normalizeKey) rg events) :=
  Runs.run_invariant_of_forall (fun _ event hinv => hinv.step normalizeKey event) h

theorem barrierLater_run {rg : ResourceGate} (h : BarrierInv rg)
    (normalizeKey : Option String → String) (events : List ResourceEvent) :
    BarrierLater rg (Runs.run (resourceStep normalizeKey) rg events) := by
  have hmeets : Runs.Meets (resourceStep normalizeKey) (fun _ _ => True) rg events :=
    Runs.Meets.of_forall (fun _ _ => trivial) rg events
  exact Runs.run_rel BarrierLater.refl (fun _ _ _ => BarrierLater.trans)
    (fun _ event hinv _ => BarrierInv.step hinv normalizeKey event)
    (fun _ event hinv _ => hinv.step_later normalizeKey event) h hmeets

/-- **Release barriers are neither lost nor early.**  After every sequence of events, a barrier is
resolved exactly when its write has been let go, and it is in the set of its key exactly while it is
not resolved; a write registers each of its barrier keys, its resource's among them; and a wait that has settled without its
timer has outlasted every write registered, at the time of the call, under its barrier key or under
its resource key. -/
theorem release_barriers_exact (normalizeKey : Option String → String) (policy : GatePolicy)
    (name gateName : String) (earlier later : List ResourceEvent) (call : WriteCall)
    (key : Option String) (waitMs : Option ℕ) :
    let initial : ResourceGate := { name := name, gate := { name := gateName, policy := policy } }
    let rg := Runs.run (resourceStep normalizeKey) initial earlier
    let written := rg.write normalizeKey call
    let after := Runs.run (resourceStep normalizeKey) (rg.waitForRelease normalizeKey key waitMs) later
    (∀ r < rg.nextRelease,
      ((rg.releases r).resolved.isSome = true ↔ rg.hasReleased (rg.releases r).task) ∧
      ∀ k, r ∈ activeReleases rg.barriers k ↔
        (rg.releases r).barrierKey = k ∧ (rg.releases r).resolved = none) ∧
    (rg.defaultBlockingReleaseKey (normalizeKey call.key) ∈
      rg.barrierKeys (normalizeKey call.key) call.barrierKey) ∧
    (∀ k ∈ rg.barrierKeys (normalizeKey call.key) call.barrierKey, ∃ r, rg.nextRelease ≤ r ∧
      r < written.nextRelease ∧ (written.releases r).barrierKey = k ∧
        (written.releases r).task = rg.gate.nextTask) ∧
    ((after.waits rg.nextWait).outcome = some .idle ∨
        (after.waits rg.nextWait).outcome = some .released →
      ∀ r < rg.nextRelease, (rg.releases r).barrierKey = normalizeBarrierKey key ∨
          (rg.releases r).barrierKey = rg.defaultBlockingReleaseKey (normalizeKey key) →
        (after.releases r).resolved.isSome = true ∧ after.hasReleased (rg.releases r).task) := by
  intro initial rg written after
  have h : BarrierInv rg := barrierInv_run (barrierInv_initial policy name gateName) _ earlier
  have hcalled := h.waitForRelease normalizeKey key waitMs
  have hafter : BarrierInv after := barrierInv_run hcalled normalizeKey later
  have hlater : BarrierLater (rg.waitForRelease normalizeKey key waitMs) after :=
    barrierLater_run hcalled normalizeKey later
  refine ⟨fun r hr => ⟨h.resolved r hr, fun k => ?_⟩, default_mem_barrierKeys rg _ _, fun k hk => ?_,
    fun hout r hr hkey => ?_⟩
  · rw [h.sets]
    exact and_iff_right hr
  · have hspec := registerBarriers_spec rg.gate.nextTask (normalizeKey call.key) call
      (rg.barrierKeys (normalizeKey call.key) call.barrierKey) h.toBarrierSound
    obtain ⟨r, hle, hlt, hkey⟩ := hspec.keys k hk
    exact ⟨r, hle, hlt, hkey, (hspec.new r hle hlt).1⟩
  · have hwait : rg.nextWait < (rg.waitForRelease normalizeKey key waitMs).nextWait :=
      Nat.lt_succ_self _
    have hcaptured : (after.waits rg.nextWait).captured =
        rg.capturedReleases (rg.releaseLookupKeys normalizeKey key) := by
      rw [hlater.captured _ hwait]
      simp [ResourceGate.waitForRelease]
    have hresolved : (after.releases r).resolved.isSome = true := by
      cases hopen : (rg.releases r).resolved with
      | some status =>
        -- resolved before the call
        refine hlater.resolved r hr ?_
        change (rg.releases r).resolved.isSome = true
        rw [hopen]
        rfl
      | none =>
        refine hafter.waits _ (hwait.trans_le hlater.nextWait) hout r ?_
        rw [hcaptured, h.mem_captured]
        exact ⟨hr, mem_releaseLookupKeys.mpr hkey, hopen⟩
    refine ⟨hresolved, ?_⟩
    have htask := (hlater.same r hr).1
    change (after.releases r).task = (rg.releases r).task at htask
    rw [← htask]
    exact (hafter.resolved r (lt_of_lt_of_le hr hlater.nextRelease)).mp hresolved

end PosseClient
