/-
# The reader/writer gate excludes, wakes and settles

What each event of the gate keeps, and from it what holds after every sequence of events, hooks
that call the gate again included.

* `gate_excludes` is the reader/writer lock: no writer beside another task of its key, no task
  called twice or after a cancellation, each promise settled once, no head of a queue that waits
  without a reason.
-/
import PosseClient.Lib.Runs
import PosseClient.Concurrency.GateInvariant

namespace PosseClient

/-! ## 1. Draining -/

/-- The head of the queue of a state is blocked by an active writer or, if it is a writer, by an
active reader. -/
def AwakeAt (g : Gate) (s : ℕ) : Prop :=
  ∀ t rest, (g.heap s).queue = t :: rest → (g.heap s).activeWriter = true ∨
    ((g.tasks t).mode = .blocking ∧ 0 < (g.heap s).activeReaders)

/-- What `#drain` of a state leaves alone. -/
structure Drains (s : ℕ) (g g' : Gate) : Prop where
  stack : g'.stack = g.stack
  closed : g'.closed = g.closed
  nextTask : g'.nextTask = g.nextTask
  heap : ∀ other, other ≠ s → g'.heap other = g.heap other
  same : ∀ t, (g'.tasks t).key = (g.tasks t).key ∧ (g'.tasks t).state = (g.tasks t).state ∧
    (g'.tasks t).mode = (g.tasks t).mode
  phase : ∀ t, (g'.tasks t).phase = (g.tasks t).phase ∨
    ((g.tasks t).phase = .queued ∧ (g'.tasks t).phase = .scheduled)
  kept : ∀ t, (g.tasks t).phase ≠ .queued → g'.tasks t = g.tasks t

theorem Drains.refl (s : ℕ) (g : Gate) : Drains s g g :=
  ⟨rfl, rfl, rfl, fun _ _ => rfl, fun _ => ⟨rfl, rfl, rfl⟩, fun _ => Or.inl rfl, fun _ _ => rfl⟩

theorem Drains.trans {s : ℕ} {a b c : Gate} (h : Drains s a b) (h' : Drains s b c) :
    Drains s a c := by
  refine ⟨h'.stack.trans h.stack, h'.closed.trans h.closed, h'.nextTask.trans h.nextTask,
    fun other hs => (h'.heap other hs).trans (h.heap other hs), fun t => ?_, fun t => ?_,
    fun t ht => ?_⟩
  · obtain ⟨hkey, hstate, hmode⟩ := h.same t
    obtain ⟨hkey', hstate', hmode'⟩ := h'.same t
    exact ⟨hkey'.trans hkey, hstate'.trans hstate, hmode'.trans hmode⟩
  · rcases h.phase t with hsame | ⟨hqueued, hscheduled⟩
    · rw [← hsame]
      exact h'.phase t
    · rcases h'.phase t with hsame' | ⟨hqueued', -⟩
      · exact Or.inr ⟨hqueued, hsame'.trans hscheduled⟩
      · rw [hscheduled] at hqueued'
        cases hqueued'
  · have hkept := h.kept t ht
    exact (h'.kept t (hkept ▸ ht)).trans hkept

theorem drains_cleanupState (g : Gate) (key : String) (s : ℕ) :
    Drains s g (g.cleanupState key s) ∧ (g.cleanupState key s).heap = g.heap := by
  unfold Gate.cleanupState
  split_ifs with hidle
  · exact ⟨⟨rfl, rfl, rfl, fun _ _ => rfl, fun _ => ⟨rfl, rfl, rfl⟩, fun _ => Or.inl rfl,
      fun _ _ => rfl⟩, rfl⟩
  · exact ⟨Drains.refl s g, rfl⟩

/-- A task of the state starts. -/
theorem drains_put {g : Gate} {s t : ℕ} {state : KeyState} (hs : (g.tasks t).state = s)
    (hphase : (g.tasks t).phase = .queued) :
    Drains s g (g.put t { g.tasks t with phase := .scheduled } state g.stack) := by
  refine ⟨rfl, rfl, rfl, fun other hother => put_heap_of_ne (hs ▸ hother), fun u => ?_, fun u => ?_,
    fun u hu => put_tasks_of_ne ?_⟩
  · by_cases hu : u = t
    · subst hu
      simp
    · rw [put_tasks_of_ne hu]
      exact ⟨rfl, rfl, rfl⟩
  · by_cases hu : u = t
    · subst hu
      simp [hphase]
    · rw [put_tasks_of_ne hu]
      exact Or.inl rfl
  · rintro rfl
    exact hu hphase

theorem drainLoop_nextTask (key : String) (s : ℕ) (queue : List ℕ) : ∀ g : Gate,
    (g.drainLoop key s queue).nextTask = g.nextTask := by
  induction queue with
  | nil => exact fun g => (drains_cleanupState g key s).1.nextTask
  | cons t rest ih =>
    intro g
    unfold Gate.drainLoop
    split
    · exact ih _
    · split
      · exact ih _
      · split <;> rfl

@[simp] theorem drain_nextTask (g : Gate) (key : String) (s : ℕ) :
    (g.drain key s).nextTask = g.nextTask := by
  unfold Gate.drain
  split_ifs
  · exact (drains_cleanupState g key s).1.nextTask
  · rfl
  · exact drainLoop_nextTask key s _ g

/-- **The loop of `#drain`.**  It ends at a head that is blocked, or at an empty queue. -/
theorem drainLoop_spec (key : String) {s : ℕ} (queue : List ℕ) : ∀ {g : Gate}, GateSound g →
    (g.heap s).queue = queue → (g.heap s).activeWriter = false →
    GateSound (g.drainLoop key s queue) ∧ Drains s g (g.drainLoop key s queue) ∧
      AwakeAt (g.drainLoop key s queue) s := by
  induction queue with
  | nil =>
    intro g h hqueue _
    obtain ⟨hdrains, hheap⟩ := drains_cleanupState g key s
    refine ⟨h.cleanupState key s, hdrains, fun t rest ht => ?_⟩
    rw [Gate.drainLoop, hheap, hqueue] at ht
    cases ht
  | cons t rest ih =>
    intro g h hqueue hwriter
    obtain ⟨ht, hs, hphase⟩ := h.head hqueue
    have hlive : (g.tasks t).cancelled = false := by
      simp [GateTask.cancelled, hphase]
    unfold Gate.drainLoop
    rw [if_neg (by simp [hlive])]
    cases hmode : (g.tasks t).mode with
    | nonBlocking =>
      dsimp only
      have hnext := h.startReader hqueue hmode hwriter
      have hput := shift_startReader hs rest
      have hheap : ((g.shift s rest).startReader s t).heap s =
          { g.heap s with queue := rest, activeReaders := (g.heap s).activeReaders + 1 } := by
        rw [hput, ← hs]
        exact put_heap_self
      obtain ⟨hsound, hdrains, hawake⟩ := ih hnext (by rw [hheap]) (by rw [hheap]; exact hwriter)
      have hfirst : Drains s g ((g.shift s rest).startReader s t) := hput ▸ drains_put hs hphase
      exact ⟨hsound, hfirst.trans hdrains, hawake⟩
    | blocking =>
      dsimp only
      by_cases hreaders : 0 < (g.heap s).activeReaders
      · rw [if_pos hreaders]
        refine ⟨h, Drains.refl s g, fun u rest' hu => Or.inr ⟨?_, hreaders⟩⟩
        obtain ⟨rfl, -⟩ := List.cons.inj (hqueue.symm.trans hu)
        exact hmode
      · rw [if_neg hreaders]
        have hput := shift_startWriter hs rest
        refine ⟨h.startWriter hqueue hmode hwriter (by omega), hput ▸ drains_put hs hphase,
          fun u rest' _ => Or.inl ?_⟩
        rw [hput, ← hs, put_heap_self]

/-- **`#drain`.**  An open gate wakes the head of the queue; a closed one starts nothing. -/
theorem drain_spec {g : Gate} (h : GateSound g) (key : String) (s : ℕ) :
    GateSound (g.drain key s) ∧ Drains s g (g.drain key s) ∧
      (g.closed = false → AwakeAt (g.drain key s) s) ∧
      (g.closed = true → (g.drain key s).heap = g.heap) := by
  unfold Gate.drain
  cases hclosed : g.closed with
  | true =>
    rw [if_pos rfl]
    obtain ⟨hdrains, hheap⟩ := drains_cleanupState g key s
    exact ⟨h.cleanupState key s, hdrains, by simp, fun _ => hheap⟩
  | false =>
    rw [if_neg (by simp)]
    cases hwriter : (g.heap s).activeWriter with
    | true => exact ⟨h, Drains.refl s g, fun _ _ _ _ => Or.inl hwriter, by simp⟩
    | false =>
      obtain ⟨hsound, hdrains, hawake⟩ := drainLoop_spec key (g.heap s).queue h rfl hwriter
      exact ⟨hsound, hdrains, fun _ => hawake, by simp⟩

/-! ## 2. The whole invariant -/

/-- The task whose hook a frame is. -/
def GateFrame.task : GateFrame → Option ℕ
  | .cancelHook t => some t
  | .releaseHook t _ => some t
  | .closing _ _ => none

/-- The tasks a frame has still to cancel. -/
def GateFrame.pending : GateFrame → List ℕ
  | .closing pending _ => pending
  | _ => []

/-- The states that are drained when a hook that runs returns. -/
def draining (g : Gate) : List ℕ := (g.stack.filterMap GateFrame.task).map (fun t => (g.tasks t).state)

/-- The tasks a `close` that was interrupted has still to cancel. -/
def closingTasks (stack : List GateFrame) : List ℕ := stack.flatMap GateFrame.pending

/-- The objects agree; an open gate keeps no head of a queue waiting without a reason, except where
a hook that runs will drain the state; and hooks of `onRelease` are those of the tasks between
their release and their settlement. -/
structure GateCore (g : Gate) : Prop extends GateSound g where
  awake : g.closed = false → ∀ s, AwakeAt g s ∨ s ∈ draining g
  owed : ∀ t < g.nextTask, (g.tasks t).phase = .releasing → t ∈ releasing g.stack
  frames : ∀ t ∈ g.stack.filterMap GateFrame.task, t < g.nextTask
  pending : ∀ t ∈ closingTasks g.stack, t < g.nextTask

/-- In addition, a closed gate has nothing waiting but what its `close` will cancel. -/
structure GateInv (g : Gate) : Prop extends GateCore g where
  shut : g.closed = true → ∀ s, ∀ t ∈ (g.heap s).queue, t ∈ closingTasks g.stack

section Core

variable {g : Gate} {s t : ℕ}

/-- A state and its tasks that a change leaves alone. -/
theorem AwakeAt.congr {g' : Gate} (h : AwakeAt g s) (hheap : g'.heap s = g.heap s)
    (hmode : ∀ t ∈ (g.heap s).queue, (g'.tasks t).mode = (g.tasks t).mode) : AwakeAt g' s := by
  intro t rest ht
  rw [hheap] at ht ⊢
  rw [hmode t (ht ▸ List.mem_cons_self)]
  exact h t rest ht

theorem draining_congr {g' : Gate} (hstack : g'.stack = g.stack)
    (hstate : ∀ t ∈ g.stack.filterMap GateFrame.task, (g'.tasks t).state = (g.tasks t).state) :
    draining g' = draining g := by
  unfold draining
  rw [hstack]
  exact List.map_congr_left hstate

@[simp] theorem releasing_cancelHook (t : ℕ) (stack : List GateFrame) :
    releasing (.cancelHook t :: stack) = releasing stack := rfl

@[simp] theorem releasing_releaseHook (t : ℕ) (outcome : GateOutcome) (stack : List GateFrame) :
    releasing (.releaseHook t outcome :: stack) = t :: releasing stack := rfl

@[simp] theorem releasing_closing (pending : List ℕ) (reason : String) (stack : List GateFrame) :
    releasing (.closing pending reason :: stack) = releasing stack := rfl

@[simp] theorem closingTasks_cons (frame : GateFrame) (stack : List GateFrame) :
    closingTasks (frame :: stack) = frame.pending ++ closingTasks stack := rfl

/-- What the cancellation of a task that waits does. -/
structure Cancels (t : ℕ) (g g' : Gate) : Prop where
  stack : g'.stack = .cancelHook t :: g.stack
  closed : g'.closed = g.closed
  nextTask : g'.nextTask = g.nextTask
  heap : ∀ s, s ≠ (g.tasks t).state → g'.heap s = g.heap s
  queue : (g'.heap (g.tasks t).state).queue = (g.heap (g.tasks t).state).queue.filter (· != t)
  others : ∀ u, u ≠ t → g'.tasks u = g.tasks u
  same : (g'.tasks t).key = (g.tasks t).key ∧ (g'.tasks t).state = (g.tasks t).state ∧
    (g'.tasks t).mode = (g.tasks t).mode
  phase : (g'.tasks t).phase = .cancelled

theorem cancels_cancelWaiter (hphase : (g.tasks t).phase = .queued) (outcome : GateOutcome) :
    Cancels t g (g.cancelWaiter t outcome).1 ∧ (g.cancelWaiter t outcome).2 = true := by
  rw [cancelWaiter_queued hphase]
  refine ⟨⟨rfl, rfl, rfl, fun s hs => put_heap_of_ne hs, ?_, fun u hu => put_tasks_of_ne hu, ?_, ?_⟩,
    rfl⟩
  · simp [Gate.put, Gate.setTask, Gate.setState]
  · simp [Gate.put, Gate.setTask, Gate.setState]
  · simp [Gate.put, Gate.setTask, Gate.setState]

theorem Cancels.task_same {g' : Gate} (h : Cancels t g g') (u : ℕ) :
    (g'.tasks u).state = (g.tasks u).state ∧ (g'.tasks u).mode = (g.tasks u).mode := by
  by_cases hu : u = t
  · exact hu ▸ h.same.2
  · rw [h.others u hu]
    exact ⟨rfl, rfl⟩

/-- What waits after a cancellation waited before, and is another task. -/
theorem Cancels.mem_queue {g' : Gate} (h : Cancels t g g') (hsound : GateSound g) {u : ℕ}
    (hu : u ∈ (g'.heap s).queue) : u ∈ (g.heap s).queue ∧ u ≠ t := by
  by_cases hs : s = (g.tasks t).state
  · subst hs
    rw [h.queue] at hu
    obtain ⟨hmem, hne⟩ := List.mem_filter.mp hu
    exact ⟨hmem, by simpa using hne⟩
  · rw [h.heap s hs] at hu
    refine ⟨hu, ?_⟩
    rintro rfl
    exact hs ((hsound.mem_queue s u).mp hu).2.1.symm

theorem GateCore.cancelWaiter (h : GateCore g) (ht : t < g.nextTask) (outcome : GateOutcome) :
    GateCore (g.cancelWaiter t outcome).1 := by
  have hsound := h.toGateSound.cancelWaiter ht outcome
  by_cases hphase : (g.tasks t).phase = .queued
  swap
  · rw [cancelWaiter_other hphase]
    exact h
  obtain ⟨hcancels, -⟩ := cancels_cancelWaiter hphase outcome
  generalize (g.cancelWaiter t outcome).1 = g' at hsound hcancels ⊢
  refine ⟨hsound, fun hopen s => ?_, fun u hu hu' => ?_, fun u hu => ?_, fun u hu => ?_⟩
  · have hdraining : draining g' = (g.tasks t).state :: draining g := by
      unfold draining
      rw [hcancels.stack]
      change List.map _ (t :: g.stack.filterMap GateFrame.task) = _
      rw [List.map_cons, hcancels.same.2.1]
      exact congrArg _ (List.map_congr_left fun u _ => (hcancels.task_same u).1)
    rw [hdraining]
    by_cases hs : s = (g.tasks t).state
    · exact Or.inr (hs ▸ List.mem_cons_self)
    · refine (h.awake (hcancels.closed ▸ hopen) s).imp (fun hawake => ?_) (List.mem_cons_of_mem _)
      exact hawake.congr (hcancels.heap s hs) fun u _ => (hcancels.task_same u).2
  · rw [hcancels.stack]
    by_cases hut : u = t
    · rw [hut, hcancels.phase] at hu'
      cases hu'
    · rw [hcancels.others u hut] at hu'
      exact h.owed u (hcancels.nextTask ▸ hu) hu'
  · rw [hcancels.nextTask]
    rw [hcancels.stack] at hu
    rcases List.mem_cons.mp hu with rfl | hold
    · exact ht
    · exact h.frames u hold
  · rw [hcancels.nextTask]
    rw [hcancels.stack] at hu
    exact h.pending u hu

theorem GateInv.cancelWaiter (h : GateInv g) (ht : t < g.nextTask) (outcome : GateOutcome) :
    GateInv (g.cancelWaiter t outcome).1 := by
  refine ⟨h.toGateCore.cancelWaiter ht outcome, ?_⟩
  by_cases hphase : (g.tasks t).phase = .queued
  swap
  · rw [cancelWaiter_other hphase]
    exact h.shut
  obtain ⟨hcancels, -⟩ := cancels_cancelWaiter hphase outcome
  intro hclosed s u hu
  rw [hcancels.stack]
  rw [hcancels.closed] at hclosed
  exact h.shut hclosed s u (hcancels.mem_queue h.toGateSound hu).1

/-- **The loop of `close`.**  What it has not cancelled yet is what it has still to cancel. -/
theorem continueClose_inv (reason : String) (pending : List ℕ) : ∀ {g : Gate}, GateCore g →
    (g.closed = true → ∀ s, ∀ t ∈ (g.heap s).queue, t ∈ pending ∨ t ∈ closingTasks g.stack) →
    (∀ t ∈ pending, t < g.nextTask) → GateInv (g.continueClose reason pending) := by
  induction pending with
  | nil =>
    intro g h hshut _
    exact ⟨h, fun hclosed s t ht => (hshut hclosed s t ht).resolve_left List.not_mem_nil⟩
  | cons t rest ih =>
    intro g h hshut hbound
    unfold Gate.continueClose
    have hpushed : GateCore { g with stack := .closing rest reason :: g.stack } := by
      refine ⟨h.toGateSound.congr rfl rfl rfl rfl rfl ⟨h.releasing_nodup, fun _ => id⟩, h.awake,
        h.owed, h.frames, fun u hu => ?_⟩
      rcases List.mem_append.mp hu with hrest | hold
      · exact hbound u (List.mem_cons_of_mem t hrest)
      · exact h.pending u hold
    dsimp only
    generalize hp : ({ g with stack := .closing rest reason :: g.stack } : Gate) = pushed
      at hpushed ⊢
    have hstack : pushed.stack = .closing rest reason :: g.stack := hp ▸ rfl
    have htasks : pushed.tasks = g.tasks := hp ▸ rfl
    have hheap : pushed.heap = g.heap := hp ▸ rfl
    have hbelow : pushed.closed = g.closed ∧ pushed.nextTask = g.nextTask := hp ▸ ⟨rfl, rfl⟩
    by_cases hphase : (pushed.tasks t).phase = .queued
    · obtain ⟨hcancels, hyes⟩ := cancels_cancelWaiter hphase (.closed reason)
      rw [if_pos hyes]
      refine ⟨hpushed.cancelWaiter ?_ _, fun hclosed s u hu => ?_⟩
      · rw [hbelow.2]
        exact hbound t List.mem_cons_self
      · obtain ⟨hold, hne⟩ := hcancels.mem_queue hpushed.toGateSound hu
        rw [hheap] at hold
        rw [hcancels.closed, hbelow.1] at hclosed
        rw [hcancels.stack, hstack]
        change u ∈ rest ++ closingTasks g.stack
        rcases hshut hclosed s u hold with hmem | hmem
        · exact List.mem_append_left _ ((List.mem_cons.mp hmem).resolve_left hne)
        · exact List.mem_append_right rest hmem
    · rw [cancelWaiter_other hphase, if_neg (by simp)]
      refine ih h (fun hclosed s u hu => ?_) fun u hu => hbound u (List.mem_cons_of_mem t hu)
      refine (hshut hclosed s u hu).imp (fun hmem => (List.mem_cons.mp hmem).resolve_left ?_) id
      rintro rfl
      rw [htasks] at hphase
      exact hphase ((h.mem_queue s u).mp hu).2.2

/-- A task that goes on with its work. -/
theorem GateInv.setTask (h : GateInv g) {task : GateTask} (hsound : GateSound (g.setTask t task))
    (hstate : task.state = (g.tasks t).state) (hmode : task.mode = (g.tasks t).mode)
    (hphase : task.phase ≠ .releasing) : GateInv (g.setTask t task) := by
  have hsame : ∀ u, ((g.setTask t task).tasks u).state = (g.tasks u).state ∧
      ((g.setTask t task).tasks u).mode = (g.tasks u).mode := by
    intro u
    by_cases hu : u = t
    · rw [hu, setTask_tasks_self]
      exact ⟨hstate, hmode⟩
    · rw [setTask_tasks_of_ne hu]
      exact ⟨rfl, rfl⟩
  refine ⟨⟨hsound, fun hopen s => ?_, fun u hu hu' => ?_, h.frames, h.pending⟩, h.shut⟩
  · have hdraining : draining (g.setTask t task) = draining g :=
      draining_congr rfl fun u _ => (hsame u).1
    rw [hdraining]
    exact (h.awake hopen s).imp (fun hawake => hawake.congr rfl fun u _ => (hsame u).2) id
  · by_cases hut : u = t
    · rw [hut, setTask_tasks_self] at hu'
      exact absurd hu' hphase
    · rw [setTask_tasks_of_ne hut] at hu'
      exact h.owed u hu hu'

theorem GateInv.callTask (h : GateInv g) (t : ℕ) : GateInv (g.callTask t) := by
  have hsound := h.toGateSound.callTask t
  unfold Gate.callTask at hsound ⊢
  split_ifs at hsound ⊢
  · exact h.setTask hsound rfl rfl (by simp)
  · exact h

theorem GateInv.taskSettles (h : GateInv g) (t : ℕ) (result : TaskResult) :
    GateInv (g.taskSettles t result) := by
  have hsound := h.toGateSound.taskSettles t result
  unfold Gate.taskSettles at hsound ⊢
  split_ifs at hsound ⊢
  · exact h.setTask hsound rfl rfl (by simp)
  · exact h

theorem GateInv.beforeReleaseSettles (h : GateInv g) (t : ℕ) (hookThrew : Bool) :
    GateInv (g.beforeReleaseSettles t hookThrew) := by
  unfold Gate.beforeReleaseSettles
  split
  swap
  · exact h
  rename_i result hstack hphase
  split_ifs with ht
  swap
  · exact h
  have hsound := h.toGateSound.release ht hphase (runBeforeRelease result hookThrew)
  rw [release_eq_put] at hsound ⊢
  have hqueue : ((g.tasks t).releaseState (g.heap (g.tasks t).state)).queue =
      (g.heap (g.tasks t).state).queue := by
    unfold GateTask.releaseState
    cases (g.tasks t).mode <;> rfl
  refine ⟨⟨hsound, fun hopen s => ?_, fun u hu hu' => ?_, fun u hu => ?_, by simp [Gate.put, closingTasks,
    GateFrame.pending]⟩, fun hclosed s u hu => ?_⟩
  · by_cases hs : s = (g.tasks t).state
    · refine Or.inr ?_
      simp [draining, Gate.put, Gate.setTask, Gate.setState, GateFrame.task, hs]
    · refine Or.inl (((h.awake hopen s).resolve_right ?_).congr (put_heap_of_ne hs) fun u _ => ?_)
      · simp [draining, hstack]
      · by_cases hut : u = t
        · subst hut
          simp [Gate.put, Gate.setTask]
        · rw [put_tasks_of_ne hut]
  · by_cases hut : u = t
    · exact hut ▸ List.mem_singleton.mpr rfl
    · rw [put_tasks_of_ne hut] at hu'
      have howed := h.owed u hu hu'
      rw [hstack] at howed
      cases howed
  · obtain rfl : u = t := by simpa [Gate.put, GateFrame.task] using hu
    exact ht
  · have hold : u ∈ (g.heap s).queue := by
      by_cases hs : s = (g.tasks t).state
      · subst hs
        simpa [Gate.put, Gate.setTask, Gate.setState, hqueue] using hu
      · simpa [Gate.put, Gate.setTask, Gate.setState, hs] using hu
    have hpending := h.shut hclosed s u hold
    rw [hstack] at hpending
    cases hpending

theorem GateInv.cleanupMicrotask (h : GateInv g) (key : String) (s : ℕ) :
    GateInv (g.cleanupMicrotask key s) := by
  have hsound := h.toGateSound.cleanupMicrotask key s
  unfold Gate.cleanupMicrotask at hsound ⊢
  split_ifs at hsound ⊢
  · exact ⟨⟨hsound, h.awake, h.owed, h.frames, h.pending⟩, h.shut⟩
  · exact ⟨⟨hsound, h.awake, h.owed, h.frames, h.pending⟩, h.shut⟩
  · exact h

/-- The gate goes on with an interrupted `close`. -/
theorem GateInv.resume (h : GateInv g) : GateInv g.resume := by
  unfold Gate.resume
  split
  swap
  · exact h
  rename_i pending reason below hstack
  have hpending : ∀ t, t ∈ closingTasks g.stack ↔ t ∈ pending ∨ t ∈ closingTasks below := by
    intro t
    rw [hstack, closingTasks_cons]
    exact List.mem_append
  have hframes : g.stack.filterMap GateFrame.task = below.filterMap GateFrame.task := by
    rw [hstack]
    rfl
  have hreleasing : releasing g.stack = releasing below := by
    rw [hstack]
    rfl
  have hdraining : draining g = draining { g with stack := below } := by
    unfold draining
    rw [hframes]
  refine continueClose_inv reason pending ⟨?_, fun hopen s => ?_, fun u hu hu' => ?_, fun u hu => ?_,
    fun u hu => ?_⟩ (fun hclosed s u hu => ?_) fun u hu => ?_
  · refine h.toGateSound.congr rfl rfl rfl rfl rfl ?_
    rw [hreleasing]
    exact ⟨hreleasing ▸ h.releasing_nodup, fun _ => id⟩
  · rw [← hdraining]
    exact h.awake hopen s
  · exact hreleasing ▸ h.owed u hu hu'
  · exact h.frames u (hframes.symm ▸ hu)
  · exact h.pending u ((hpending u).mpr (Or.inr hu))
  · exact (hpending u).mp (h.shut hclosed s u hu)
  · exact h.pending u ((hpending u).mpr (Or.inl hu))

/-- A hook of a task has returned, and the gate drains its state. -/
theorem GateInv.popDrain (h : GateInv g) {frame : GateFrame} {below : List GateFrame}
    (hstack : g.stack = frame :: below) (htask : frame.task = some t) (hpending : frame.pending = []) :
    let g' := { g with stack := below }.drain (g.tasks t).key (g.tasks t).state
    GateSound g' ∧ Drains (g.tasks t).state { g with stack := below } g' ∧
      (g'.closed = false → ∀ s, AwakeAt g' s ∨ s ∈ draining g') ∧
      (∀ u ∈ g'.stack.filterMap GateFrame.task, u < g'.nextTask) ∧
      (∀ u ∈ closingTasks g'.stack, u < g'.nextTask) ∧
      (g'.closed = true → ∀ s, ∀ u ∈ (g'.heap s).queue, u ∈ closingTasks g'.stack) := by
  intro g'
  have hsublist : ∀ u, u ∈ releasing below → u ∈ releasing g.stack := by
    intro u hu
    rw [hstack, releasing, List.filterMap_cons]
    split
    · exact hu
    · exact List.mem_cons_of_mem _ hu
  have hnd : (releasing below).Nodup := by
    have hnd := h.releasing_nodup
    rw [hstack, releasing, List.filterMap_cons] at hnd
    split at hnd
    · exact hnd
    · exact (List.nodup_cons.mp hnd).2
  have hpopped : GateSound { g with stack := below } :=
    h.toGateSound.congr rfl rfl rfl rfl rfl ⟨hnd, hsublist⟩
  have hframes : g.stack.filterMap GateFrame.task = t :: below.filterMap GateFrame.task := by
    rw [hstack, List.filterMap_cons, htask]
  have hclosing : closingTasks g.stack = closingTasks below := by
    rw [hstack, closingTasks_cons, hpending, List.nil_append]
  obtain ⟨hsound, hdrains, hawake, hshut⟩ :=
    drain_spec hpopped (g.tasks t).key (g.tasks t).state
  have hdraining : draining g' = draining { g with stack := below } :=
    draining_congr hdrains.stack fun u _ => (hdrains.same u).2.1
  refine ⟨hsound, hdrains, fun hopen s => ?_, fun u hu => ?_, fun u hu => ?_,
    fun hclosed s u hu => ?_⟩
  · have hopen' : g.closed = false := hdrains.closed.symm.trans hopen
    by_cases hs : s = (g.tasks t).state
    · exact Or.inl (hs ▸ hawake hopen')
    · rw [hdraining]
      refine (h.awake hopen' s).imp (fun hold => ?_) fun hmem => ?_
      · exact hold.congr (hdrains.heap s hs) fun u _ => (hdrains.same u).2.2
      · rw [draining, hframes, List.map_cons] at hmem
        exact (List.mem_cons.mp hmem).resolve_left hs
  · rw [hdrains.nextTask]
    rw [hdrains.stack] at hu
    exact h.frames u (hframes ▸ List.mem_cons_of_mem t hu)
  · rw [hdrains.nextTask]
    rw [hdrains.stack] at hu
    exact h.pending u (hclosing.symm ▸ hu)
  · have hclosed' : g.closed = true := hdrains.closed.symm.trans hclosed
    rw [hdrains.stack]
    rw [hshut hclosed'] at hu
    exact hclosing ▸ h.shut hclosed' s u hu

/-- What is releasing after a drain was releasing before. -/
theorem Drains.releasing {g' : Gate} (h : Drains s g g') {u : ℕ}
    (hu : (g'.tasks u).phase = .releasing) : (g.tasks u).phase = .releasing := by
  rcases h.phase u with hsame | ⟨-, hscheduled⟩
  · exact hsame ▸ hu
  · rw [hscheduled] at hu
    cases hu

theorem GateInv.hookReturns (h : GateInv g) : GateInv g.hookReturns := by
  unfold Gate.hookReturns
  split
  · rename_i t below hstack
    obtain ⟨hsound, hdrains, hawake, hframes, hpending, hshut⟩ := h.popDrain hstack rfl rfl
    refine GateInv.resume ⟨⟨hsound, hawake, fun u hu hu' => ?_, hframes, hpending⟩, hshut⟩
    have howed := h.owed u (hdrains.nextTask ▸ hu) (hdrains.releasing hu')
    rw [hstack] at howed
    rw [hdrains.stack]
    exact howed
  · rename_i t outcome below hstack
    obtain ⟨hsound, hdrains, hawake, hframes, hpending, hshut⟩ := h.popDrain hstack rfl rfl
    have hnd := h.releasing_nodup
    rw [hstack, releasing_releaseHook, List.nodup_cons] at hnd
    obtain ⟨ht, hphase⟩ := h.of_releasing t (hstack ▸ List.mem_cons_self)
    have hphase' : ((Gate.drain { g with stack := below } (g.tasks t).key
        (g.tasks t).state).tasks t).phase = .releasing := by
      rcases hdrains.phase t with hsame | ⟨hqueued, -⟩
      · exact hsame.trans hphase
      · rw [hphase] at hqueued
        cases hqueued
    generalize Gate.drain { g with stack := below } (g.tasks t).key (g.tasks t).state = g'
      at hsound hdrains hawake hframes hpending hshut hphase' ⊢
    have ht' : t < g'.nextTask := hdrains.nextTask ▸ ht
    have hsettled := hsound.settleDone ht' hphase' (by rw [hdrains.stack]; exact hnd.1) outcome
    have hsame : ∀ u, ((g'.settle t .done outcome).tasks u).state = (g'.tasks u).state ∧
        ((g'.settle t .done outcome).tasks u).mode = (g'.tasks u).mode := by
      intro u
      by_cases hu : u = t
      · rw [hu, Gate.settle, setTask_tasks_self]
        exact ⟨rfl, rfl⟩
      · rw [Gate.settle, setTask_tasks_of_ne hu]
        exact ⟨rfl, rfl⟩
    have hdraining : draining (g'.settle t .done outcome) = draining g' :=
      draining_congr rfl fun u _ => (hsame u).1
    refine GateInv.resume ⟨⟨hsettled, fun hopen s => ?_, fun u hu hu' => ?_, hframes, hpending⟩, hshut⟩
    · rw [hdraining]
      exact (hawake hopen s).imp (fun hold => hold.congr rfl fun u _ => (hsame u).2) id
    · by_cases hut : u = t
      · rw [hut, Gate.settle, setTask_tasks_self] at hu'
        cases hu'
      · have hold : (g'.tasks u).phase = .releasing := by
          rwa [Gate.settle, setTask_tasks_of_ne hut] at hu'
        have howed := h.owed u (hdrains.nextTask ▸ hu) (hdrains.releasing hold)
        rw [hstack, releasing_releaseHook] at howed
        change u ∈ PosseClient.releasing g'.stack
        rw [hdrains.stack]
        exact (List.mem_cons.mp howed).resolve_left hut
  · exact h

end Core

/-! ## 3. Calls -/

section Calls

variable {g : Gate}

/-- A new task that does not wait. -/
theorem GateInv.withTask (h : GateInv g) {task : GateTask} {stack : List GateFrame}
    (hsound : GateSound (g.withTask task (g.heap task.state).queue stack))
    (hphase : task.phase ≠ .releasing)
    (hstack : stack = g.stack ∨ stack = .cancelHook g.nextTask :: g.stack) :
    GateInv (g.withTask task (g.heap task.state).queue stack) := by
  have hheap : ∀ s, (g.withTask task (g.heap task.state).queue stack).heap s = g.heap s := by
    intro s
    simp [Gate.withTask, Gate.setState]
  have hold : ∀ u < g.nextTask,
      (g.withTask task (g.heap task.state).queue stack).tasks u = g.tasks u := by
    intro u hu
    simp [Gate.withTask, hu.ne]
  have hmap : (g.stack.filterMap GateFrame.task).map (fun u =>
      ((g.withTask task (g.heap task.state).queue stack).tasks u).state) = draining g := by
    refine List.map_congr_left fun u hu => ?_
    rw [hold u (h.frames u hu)]
  have hdraining : ∀ s, s ∈ draining g →
      s ∈ draining (g.withTask task (g.heap task.state).queue stack) := by
    intro s hs
    rw [← hmap] at hs
    rcases hstack with rfl | rfl
    · exact hs
    · exact List.mem_cons_of_mem _ hs
  have hclosing : closingTasks stack = closingTasks g.stack := by
    rcases hstack with rfl | rfl <;> rfl
  have hreleasing : releasing stack = releasing g.stack := by
    rcases hstack with rfl | rfl <;> rfl
  refine ⟨⟨hsound, fun hopen s => ?_, fun u hu hu' => ?_, fun u hu => ?_, fun u hu => ?_⟩,
    fun hclosed s u hu => ?_⟩
  · refine (h.awake hopen s).imp (fun hawake => hawake.congr (hheap s) fun u hu => ?_) (hdraining s)
    rw [hold u ((h.mem_queue s u).mp hu).1]
  · change u ∈ releasing stack
    rw [hreleasing]
    by_cases hlt : u < g.nextTask
    · rw [hold u hlt] at hu'
      exact h.owed u hlt hu'
    · obtain rfl : u = g.nextTask := by
        change u < g.nextTask + 1 at hu
        omega
      have hself : (g.withTask task (g.heap task.state).queue stack).tasks g.nextTask = task := by
        simp [Gate.withTask]
      rw [hself] at hu'
      exact absurd hu' hphase
  · change u < g.nextTask + 1
    rcases hstack with rfl | rfl
    · exact (h.frames u hu).trans (Nat.lt_succ_self _)
    · rcases List.mem_cons.mp hu with rfl | hu'
      · exact Nat.lt_succ_self _
      · exact (h.frames u hu').trans (Nat.lt_succ_self _)
  · change u ∈ closingTasks stack at hu
    rw [hclosing] at hu
    exact (h.pending u hu).trans (Nat.lt_succ_self _)
  · rw [hheap s] at hu
    change u ∈ closingTasks stack
    rw [hclosing]
    exact h.shut hclosed s u hu

/-- An insertion at any place. -/
theorem mem_splice {queue : List ℕ} {t u : ℕ} (i : ℕ) :
    u ∈ queue.take i ++ t :: queue.drop i ↔ u ∈ queue ∨ u = t := by
  have hsplit : u ∈ queue ↔ u ∈ queue.take i ∨ u ∈ queue.drop i := by
    rw [← List.mem_append, List.take_append_drop]
  rw [List.mem_append, List.mem_cons, hsplit]
  tauto

theorem nodup_splice {queue : List ℕ} {t : ℕ} (i : ℕ) (hnd : queue.Nodup) (ht : t ∉ queue) :
    (queue.take i ++ t :: queue.drop i).Nodup := by
  rw [(List.perm_middle).nodup_iff, List.take_append_drop]
  exact List.nodup_cons.mpr ⟨ht, hnd⟩

theorem GateSound.splice (h : GateSound g) (task : GateTask) (hphase : task.phase = .queued)
    (hstarts : task.starts = 0) (hsettled : task.settled = []) (hstate : task.state < g.nextState)
    (hkey : g.states.lookup task.key = some task.state) (i : ℕ) :
    GateSound (g.withTask task ((g.heap task.state).queue.take i ++
      g.nextTask :: (g.heap task.state).queue.drop i) g.stack) := by
  have hnew : g.nextTask ∉ (g.heap task.state).queue :=
    fun hin => lt_irrefl _ ((h.mem_queue _ g.nextTask).mp hin).1
  refine h.withTask (by rw [hphase]; rfl) (fun _ => ⟨hstate, hkey⟩)
    ⟨nodup_splice i (h.queue_nodup _) hnew, fun u => ?_⟩ (by rw [hphase]; exact hstarts)
    (by rw [hphase, hsettled]; rfl) ⟨h.releasing_nodup, fun _ => id⟩
  rw [mem_splice]
  simp [hphase]

/-- A task that joins the queue of its state; the gate is open. -/
theorem GateInv.insert (h : GateInv g) (hopen : g.closed = false) {task : GateTask}
    (hphase : task.phase = .queued) (hstarts : task.starts = 0) (hsettled : task.settled = [])
    (hstate : task.state < g.nextState) (hkey : g.states.lookup task.key = some task.state)
    (i : ℕ) :
    GateInv ((g.withTask task ((g.heap task.state).queue.take i ++
      g.nextTask :: (g.heap task.state).queue.drop i) g.stack).drain task.key task.state) := by
  have hjoined := h.toGateSound.splice task hphase hstarts hsettled hstate hkey i
  have hold : ∀ u < g.nextTask, (g.withTask task ((g.heap task.state).queue.take i ++
      g.nextTask :: (g.heap task.state).queue.drop i) g.stack).tasks u = g.tasks u := by
    intro u hu
    simp [Gate.withTask, hu.ne]
  have hself : (g.withTask task ((g.heap task.state).queue.take i ++
      g.nextTask :: (g.heap task.state).queue.drop i) g.stack).tasks g.nextTask = task := by
    simp [Gate.withTask]
  have hheap : ∀ s, s ≠ task.state → (g.withTask task ((g.heap task.state).queue.take i ++
      g.nextTask :: (g.heap task.state).queue.drop i) g.stack).heap s = g.heap s := by
    intro s hs
    simp [Gate.withTask, Gate.setState, hs]
  have hfields : ∀ queue, (g.withTask task queue g.stack).closed = false ∧
      (g.withTask task queue g.stack).stack = g.stack ∧
      (g.withTask task queue g.stack).nextTask = g.nextTask + 1 := fun _ => ⟨hopen, rfl, rfl⟩
  obtain ⟨hclosed', hstack', hnext'⟩ := hfields ((g.heap task.state).queue.take i ++
      g.nextTask :: (g.heap task.state).queue.drop i)
  generalize g.withTask task ((g.heap task.state).queue.take i ++
      g.nextTask :: (g.heap task.state).queue.drop i) g.stack = g' at *
  obtain ⟨hsound, hdrains, hawake, -⟩ := drain_spec hjoined task.key task.state
  have hdraining : draining (g'.drain task.key task.state) = draining g := by
    unfold draining
    rw [hdrains.stack, hstack']
    refine List.map_congr_left fun u hu => ?_
    rw [(hdrains.same u).2.1, hold u (h.frames u hu)]
  refine ⟨⟨hsound, fun _ s => ?_, fun u hu hu' => ?_, fun u hu => ?_, fun u hu => ?_⟩,
    fun hclosed => ?_⟩
  · by_cases hs : s = task.state
    · exact Or.inl (hs ▸ hawake hclosed')
    · rw [hdraining]
      refine (h.awake hopen s).imp (fun hawake' => ?_) id
      refine hawake'.congr ((hdrains.heap s hs).trans (hheap s hs)) fun u hu => ?_
      rw [(hdrains.same u).2.2, hold u ((h.mem_queue s u).mp hu).1]
  · rw [hdrains.stack, hstack']
    have hreleasing := hdrains.releasing hu'
    by_cases hlt : u < g.nextTask
    · rw [hold u hlt] at hreleasing
      exact h.owed u hlt hreleasing
    · rw [hdrains.nextTask, hnext'] at hu
      obtain rfl : u = g.nextTask := by omega
      rw [hself, hphase] at hreleasing
      cases hreleasing
  · rw [hdrains.stack, hstack'] at hu
    rw [hdrains.nextTask, hnext']
    exact (h.frames u hu).trans (Nat.lt_succ_self _)
  · rw [hdrains.stack, hstack'] at hu
    rw [hdrains.nextTask, hnext']
    exact (h.pending u hu).trans (Nat.lt_succ_self _)
  · rw [hdrains.closed, hclosed'] at hclosed
    cases hclosed

/-- `#stateFor`, which makes a state at most. -/
theorem GateInv.stateFor (h : GateInv g) (key : String) : GateInv (g.stateFor key).1 := by
  obtain ⟨hsound, -, -, hheap, htasks, hnext, hstack, hclosed⟩ := h.toGateSound.stateFor key
  generalize (g.stateFor key).1 = g₁ at *
  have hdraining : draining g₁ = draining g :=
    draining_congr hstack fun u _ => by rw [htasks]
  refine ⟨⟨hsound, fun hopen s => ?_, fun u hu hu' => ?_, fun u hu => ?_, fun u hu => ?_⟩,
    fun hshut s u hu => ?_⟩
  · rw [hdraining]
    refine (h.awake (hclosed ▸ hopen) s).imp (fun hawake => ?_) id
    exact hawake.congr (congrFun hheap s) fun u _ => by rw [htasks]
  · rw [hstack]
    rw [htasks] at hu'
    exact h.owed u (hnext ▸ hu) hu'
  · rw [hnext]
    exact h.frames u (hstack ▸ hu)
  · rw [hnext]
    exact h.pending u (hstack ▸ hu)
  · rw [hheap] at hu
    rw [hstack]
    exact h.shut (hclosed ▸ hshut) s u hu

theorem addTask_eq_withTask (task : GateTask) :
    g.addTask task = g.withTask task (g.heap task.state).queue g.stack := by
  simp [Gate.addTask, Gate.withTask, Gate.setTask, Gate.setState]

/-- A waiter whose signal is aborted already: it is in no queue, and its promise is rejected. -/
theorem GateInv.enqueueAborted (h : GateInv g) {task : GateTask} (hphase : task.phase = .queued)
    (hstarts : task.starts = 0) (hsettled : task.settled = []) :
    GateInv ((g.addTask task).cancelWaiter g.nextTask .aborted).1 := by
  have hself : (g.addTask task).tasks g.nextTask = task := by simp [Gate.addTask]
  have hnew : g.nextTask ∉ (g.heap task.state).queue :=
    fun hin => lt_irrefl _ ((h.mem_queue _ _).mp hin).1
  have hqueue : (g.heap task.state).queue.filter (· != g.nextTask) = (g.heap task.state).queue := by
    refine List.filter_eq_self.mpr fun u hu => ?_
    simp only [bne_iff_ne, ne_eq]
    rintro rfl
    exact hnew hu
  have hphase' : ((g.addTask task).tasks g.nextTask).phase = .queued := by rw [hself, hphase]
  have hjoined : ((g.addTask task).cancelWaiter g.nextTask .aborted).1 =
      g.withTask { task with phase := .cancelled, settled := task.settled ++ [.aborted] }
        (g.heap task.state).queue (.cancelHook g.nextTask :: g.stack) := by
    rw [cancelWaiter_queued hphase', hself]
    simp [Gate.addTask, Gate.withTask, Gate.put, Gate.setTask, Gate.setState, hqueue]
  rw [hjoined]
  refine GateInv.withTask h (h.toGateSound.withTask rfl (fun hq => by cases hq) ⟨h.queue_nodup _, ?_⟩
    hstarts (by rw [hsettled]; rfl) ⟨h.releasing_nodup, fun _ => id⟩) (by simp) (Or.inr rfl)
  intro u
  simp

theorem insertTask_eq_withTask (task : GateTask) :
    ∃ i, (g.addTask task).insertTask task.state g.nextTask =
      g.withTask task ((g.heap task.state).queue.take i ++
        g.nextTask :: (g.heap task.state).queue.drop i) g.stack := by
  refine ⟨(g.addTask task).insertIndex task.state ((g.addTask task).tasks g.nextTask), ?_⟩
  simp [Gate.insertTask, Gate.addTask, Gate.withTask, Gate.setTask, Gate.setState]

/-- A waiter that joins the queue; the gate is open. -/
theorem GateInv.enqueueInsert (h : GateInv g) (hopen : g.closed = false) (task : GateTask)
    (hphase : task.phase = .queued) (hstarts : task.starts = 0) (hsettled : task.settled = [])
    (hstate : task.state < g.nextState) (hkey : g.states.lookup task.key = some task.state) :
    GateInv (((g.addTask task).insertTask task.state g.nextTask).drain task.key task.state) ∧
      g.nextTask <
        (((g.addTask task).insertTask task.state g.nextTask).drain task.key task.state).nextTask := by
  obtain ⟨i, hi⟩ := insertTask_eq_withTask (g := g) task
  rw [hi]
  have hinv := h.insert hopen hphase hstarts hsettled hstate hkey i
  refine ⟨hinv, ?_⟩
  rw [drain_nextTask]
  exact Nat.lt_succ_self _

/-- **`#enqueue`.** -/
theorem GateInv.enqueue (h : GateInv g) (call : GateCall) : GateInv (g.enqueue call) := by
  unfold Gate.enqueue
  dsimp only
  cases hclosed : g.closed with
  | true =>
    rw [if_pos rfl, addTask_eq_withTask]
    refine GateInv.withTask h (h.toGateSound.withTask rfl (fun hq => by cases hq) ⟨h.queue_nodup _, ?_⟩
      rfl rfl ⟨h.releasing_nodup, fun _ => id⟩) (by simp) (Or.inl rfl)
    intro u
    simp
  | false =>
    rw [if_neg (by simp)]
    have hstate := h.stateFor (normalizeGateKey call.key)
    obtain ⟨-, hbelow, hlookup, -, -, -, -, hopen⟩ :=
      h.toGateSound.stateFor (normalizeGateKey call.key)
    generalize g.stateFor (normalizeGateKey call.key) = p at *
    obtain ⟨g₁, s⟩ := p
    dsimp only at hstate hbelow hlookup hopen ⊢
    have hinsert := hstate.enqueueInsert (hopen.trans hclosed) (g₁.newTask call s) rfl rfl rfl
      hbelow hlookup
    split_ifs
    · exact hstate.enqueueAborted rfl rfl rfl
    · exact hinsert.1.cancelWaiter hinsert.2 _
    · exact hinsert.1

/-- **`close`.** -/
theorem GateInv.close (h : GateInv g) (reason : String) : GateInv (g.close reason) := by
  unfold Gate.close
  split_ifs with hclosed
  · exact h
  dsimp only
  have hcore : GateCore { g with closed := true } :=
    ⟨h.toGateSound.congr rfl rfl rfl rfl rfl ⟨h.releasing_nodup, fun _ => id⟩,
      (fun hopen => by cases hopen), h.owed, h.frames, h.pending⟩
  have hwaiting : ∀ s, ∀ t ∈ (g.heap s).queue, t ∈ (g.states.flatMap (fun p =>
      (g.heap p.2).queue)).filter (fun t => decide ((g.tasks t).phase = .queued)) := by
    intro s t ht
    obtain ⟨hlt, rfl, hphase⟩ := (h.mem_queue s t).mp ht
    obtain ⟨-, hlookup⟩ := h.live t hlt (by rw [hphase]; rfl)
    rw [List.mem_filter, List.mem_flatMap, decide_eq_true_iff]
    exact ⟨⟨_, mem_of_lookup hlookup, ht⟩, hphase⟩
  refine continueClose_inv reason _ hcore (fun _ s t ht => Or.inl (hwaiting s t ht)) fun t ht => ?_
  obtain ⟨hmem, -⟩ := List.mem_filter.mp ht
  obtain ⟨p, -, hp⟩ := List.mem_flatMap.mp hmem
  exact ((h.mem_queue p.2 t).mp hp).1

theorem GateInv.abort (h : GateInv g) (t : ℕ) : GateInv (g.abort t) := by
  unfold Gate.abort
  split_ifs with ht
  · exact h.cancelWaiter ht.1 _
  · exact h

theorem GateInv.timeout (h : GateInv g) (t : ℕ) : GateInv (g.timeout t) := by
  unfold Gate.timeout
  split
  · split_ifs with ht
    · exact h.cancelWaiter ht.1 _
    · exact h
  · exact h

/-- **The step.**  Every event keeps the invariant. -/
theorem GateInv.step (h : GateInv g) (event : GateEvent) : GateInv (assetGateStep g event) := by
  cases event with
  | runBlocking call => exact h.enqueue _
  | runNonBlocking call => exact h.enqueue _
  | abort t => exact h.abort t
  | close reason => exact h.close reason
  | hookReturns => exact h.hookReturns
  | timeout t => exact h.timeout t
  | callTask t => exact h.callTask t
  | taskSettles t result => exact h.taskSettles t result
  | beforeReleaseSettles t hookThrew => exact h.beforeReleaseSettles t hookThrew
  | cleanupMicrotask key s => exact h.cleanupMicrotask key s

end Calls

/-! ## 4. Promises that are settled -/

/-- A task whose promise is settled stays as it is. -/
structure GateLater (g g' : Gate) : Prop where
  nextTask : g.nextTask ≤ g'.nextTask
  kept : ∀ t < g.nextTask, (g.tasks t).phase.settlements = 1 → g'.tasks t = g.tasks t

theorem GateLater.refl (g : Gate) : GateLater g g := ⟨le_rfl, fun _ _ _ => rfl⟩

theorem GateLater.trans {a b c : Gate} (h : GateLater a b) (h' : GateLater b c) :
    GateLater a c := by
  refine ⟨h.nextTask.trans h'.nextTask, fun t ht hsettled => ?_⟩
  have hb := h.kept t ht hsettled
  exact (h'.kept t (ht.trans_le h.nextTask) (hb ▸ hsettled)).trans hb

section Later

variable {g : Gate}

/-- One task that is not settled changes. -/
theorem GateLater.of_other {g' : Gate} {t : ℕ} (hnext : g'.nextTask = g.nextTask)
    (hother : ∀ u, u ≠ t → g'.tasks u = g.tasks u) (hphase : (g.tasks t).phase.settlements = 0) :
    GateLater g g' := by
  refine ⟨hnext.ge, fun u _ hsettled => hother u ?_⟩
  rintro rfl
  rw [hphase] at hsettled
  cases hsettled

/-- Nothing but other parts of the gate changes. -/
theorem GateLater.of_same {g' : Gate} (hnext : g'.nextTask = g.nextTask)
    (htasks : g'.tasks = g.tasks) : GateLater g g' :=
  ⟨hnext.ge, fun u _ _ => congrFun htasks u⟩

theorem Drains.later {g' : Gate} {s : ℕ} (h : Drains s g g') : GateLater g g' := by
  refine ⟨h.nextTask.ge, fun t _ hsettled => h.kept t ?_⟩
  intro hqueued
  rw [hqueued] at hsettled
  cases hsettled

theorem GateLater.cancelWaiter (g : Gate) (t : ℕ) (outcome : GateOutcome) :
    GateLater g (g.cancelWaiter t outcome).1 := by
  by_cases hphase : (g.tasks t).phase = .queued
  · obtain ⟨hcancels, -⟩ := cancels_cancelWaiter hphase outcome
    exact GateLater.of_other hcancels.nextTask hcancels.others (by rw [hphase]; rfl)
  · rw [cancelWaiter_other hphase]
    exact GateLater.refl g

theorem GateLater.continueClose (reason : String) (pending : List ℕ) (g : Gate) :
    GateLater g (g.continueClose reason pending) := by
  induction pending with
  | nil => exact GateLater.refl g
  | cons t rest ih =>
    unfold Gate.continueClose
    dsimp only
    split_ifs
    · refine GateLater.trans ?_ (GateLater.cancelWaiter _ t _)
      exact GateLater.of_same rfl rfl
    · exact ih

theorem GateLater.resume (g : Gate) : GateLater g g.resume := by
  unfold Gate.resume
  split
  · refine GateLater.trans ?_ (GateLater.continueClose _ _ _)
    exact GateLater.of_same rfl rfl
  · exact GateLater.refl g

theorem GateInv.hookReturns_later (h : GateInv g) : GateLater g g.hookReturns := by
  unfold Gate.hookReturns
  split
  · rename_i t below hstack
    obtain ⟨-, hdrains, -⟩ := h.popDrain hstack rfl rfl
    refine GateLater.trans (GateLater.trans ?_ hdrains.later) (GateLater.resume _)
    exact GateLater.of_same rfl rfl
  · rename_i t outcome below hstack
    obtain ⟨-, hdrains, -⟩ := h.popDrain hstack rfl rfl
    obtain ⟨-, hphase⟩ := h.of_releasing t (hstack ▸ List.mem_cons_self)
    have hkept := hdrains.kept t (by simp [hphase])
    refine GateLater.trans (GateLater.trans (GateLater.trans ?_ hdrains.later) ?_)
      (GateLater.resume _)
    · exact GateLater.of_same rfl rfl
    · refine GateLater.of_other rfl (fun u hu => setTask_tasks_of_ne hu) ?_
      rw [hkept]
      exact congrArg TaskPhase.settlements hphase
  · exact GateLater.refl g

theorem GateLater.addTask (g : Gate) (task : GateTask) : GateLater g (g.addTask task) := by
  refine ⟨Nat.le_succ _, fun u hu _ => ?_⟩
  simp [Gate.addTask, Gate.setTask, hu.ne]

theorem GateInv.enqueue_later (h : GateInv g) (call : GateCall) : GateLater g (g.enqueue call) := by
  unfold Gate.enqueue
  dsimp only
  cases hclosed : g.closed with
  | true =>
    rw [if_pos rfl]
    exact GateLater.addTask g _
  | false =>
    rw [if_neg (by simp)]
    have hstate := h.stateFor (normalizeGateKey call.key)
    obtain ⟨-, hbelow, hlookup, -, htasks, hnext, -, hopen⟩ :=
      h.toGateSound.stateFor (normalizeGateKey call.key)
    generalize g.stateFor (normalizeGateKey call.key) = p at *
    obtain ⟨g₁, s⟩ := p
    dsimp only at hstate hbelow hlookup htasks hnext hopen ⊢
    have hadded := (GateLater.of_same hnext htasks).trans (GateLater.addTask g₁ (g₁.newTask call s))
    have hdrained : GateLater g (((g₁.addTask (g₁.newTask call s)).insertTask s g₁.nextTask).drain
        (normalizeGateKey call.key) s) := by
      obtain ⟨i, hi⟩ := insertTask_eq_withTask (g := g₁) (g₁.newTask call s)
      have hsound := hstate.toGateSound.splice (g₁.newTask call s) rfl rfl rfl hbelow hlookup i
      rw [← hi] at hsound
      refine GateLater.trans (hadded.trans ?_) (drain_spec hsound _ _).2.1.later
      exact GateLater.of_same rfl rfl
    split_ifs
    · exact hadded.trans (GateLater.cancelWaiter _ _ _)
    · exact hdrained.trans (GateLater.cancelWaiter _ _ _)
    · exact hdrained

/-- **The step.**  A settled task stays as it is across every event. -/
theorem GateInv.step_later (h : GateInv g) (event : GateEvent) :
    GateLater g (assetGateStep g event) := by
  cases event with
  | runBlocking call => exact h.enqueue_later _
  | runNonBlocking call => exact h.enqueue_later _
  | abort t =>
    change GateLater g (g.abort t)
    unfold Gate.abort
    split_ifs
    · exact GateLater.cancelWaiter g t _
    · exact GateLater.refl g
  | close reason =>
    change GateLater g (g.close reason)
    unfold Gate.close
    split_ifs
    · exact GateLater.refl g
    · refine GateLater.trans ?_ (GateLater.continueClose _ _ _)
      exact GateLater.of_same rfl rfl
  | hookReturns => exact h.hookReturns_later
  | timeout t =>
    change GateLater g (g.timeout t)
    unfold Gate.timeout
    split
    · split_ifs
      · exact GateLater.cancelWaiter g t _
      · exact GateLater.refl g
    · exact GateLater.refl g
  | callTask t =>
    change GateLater g (g.callTask t)
    unfold Gate.callTask
    split_ifs with hready
    · exact GateLater.of_other rfl (fun u hu => setTask_tasks_of_ne hu) (by rw [hready.2.2]; rfl)
    · exact GateLater.refl g
  | taskSettles t result =>
    change GateLater g (g.taskSettles t result)
    unfold Gate.taskSettles
    split_ifs with hready
    · exact GateLater.of_other rfl (fun u hu => setTask_tasks_of_ne hu) (by rw [hready.2.2]; rfl)
    · exact GateLater.refl g
  | beforeReleaseSettles t hookThrew =>
    change GateLater g (g.beforeReleaseSettles t hookThrew)
    unfold Gate.beforeReleaseSettles
    split
    · rename_i result hstack hphase
      split_ifs with ht
      · rw [release_eq_put]
        exact GateLater.of_other rfl (fun u hu => put_tasks_of_ne hu) (by rw [hphase]; rfl)
      · exact GateLater.refl g
    · exact GateLater.refl g
  | cleanupMicrotask key s =>
    change GateLater g (g.cleanupMicrotask key s)
    unfold Gate.cleanupMicrotask
    split_ifs <;> exact GateLater.of_same rfl rfl

end Later

/-! ## 5. The reader/writer lock -/

section Lock

variable {g : Gate} {s t u : ℕ}

/-- A writer that holds the lock of a state is alone there. -/
theorem GateSound.alone (h : GateSound g) (ht : t ∈ g.holders s .blocking) {mode : GateMode}
    (hu : u ∈ g.holders s mode) : u = t ∧ mode = .blocking := by
  have hwriters := h.writers s
  have hpos : 0 < (g.holders s .blocking).card := Finset.card_pos.mpr ⟨t, ht⟩
  have hwriter : (g.heap s).activeWriter = true := by
    cases hw : (g.heap s).activeWriter with
    | true => rfl
    | false =>
      rw [hw, Bool.toNat_false] at hwriters
      omega
  cases mode with
  | blocking =>
    rw [hwriter, Bool.toNat_true] at hwriters
    exact ⟨Finset.card_le_one.mp hwriters.ge u hu t ht, rfl⟩
  | nonBlocking =>
    have hreaders := h.readers s
    rw [h.exclusive s hwriter] at hreaders
    have hpos' : 0 < (g.holders s .nonBlocking).card := Finset.card_pos.mpr ⟨u, hu⟩
    omega

/-- Two tasks of one key that wait or hold a lock belong to one state object. -/
theorem GateSound.same_state (h : GateSound g) (ht : t < g.nextTask) (hu : u < g.nextTask)
    (hlive : (g.tasks t).phase.isLive = true) (hlive' : (g.tasks u).phase.isLive = true)
    (hkey : (g.tasks t).key = (g.tasks u).key) : (g.tasks t).state = (g.tasks u).state := by
  have hlookup := (h.live t ht hlive).2
  rw [hkey, (h.live u hu hlive').2] at hlookup
  exact (Option.some.inj hlookup).symm

/-- Two tasks of one key that hold its lock read. -/
theorem GateSound.excludes (h : GateSound g) (ht : t < g.nextTask) (hu : u < g.nextTask)
    (hne : t ≠ u) (hholds : (g.tasks t).phase.holds = true)
    (hholds' : (g.tasks u).phase.holds = true) (hkey : (g.tasks t).key = (g.tasks u).key) :
    (g.tasks t).mode = .nonBlocking := by
  have hstate := h.same_state ht hu (isLive_of_holds hholds) (isLive_of_holds hholds') hkey
  cases hmode : (g.tasks t).mode with
  | nonBlocking => rfl
  | blocking =>
    obtain ⟨hsame, -⟩ := h.alone (mem_holders.mpr ⟨ht, hstate, hmode, hholds⟩)
      (mem_holders.mpr ⟨hu, rfl, rfl, hholds'⟩)
    exact absurd hsame.symm hne

/-- Where no hook runs, the head of a queue waits for a task that holds the lock. -/
theorem GateInv.head_blocked (h : GateInv g) (hstack : g.stack = []) {rest : List ℕ}
    (hqueue : (g.heap s).queue = t :: rest) :
    (g.holders s .blocking).Nonempty ∨
      ((g.tasks t).mode = .blocking ∧ (g.holders s .nonBlocking).Nonempty) := by
  cases hclosed : g.closed with
  | true =>
    have hpending := h.shut hclosed s t (hqueue ▸ List.mem_cons_self)
    rw [hstack] at hpending
    cases hpending
  | false =>
    have hawake : AwakeAt g s := by
      refine (h.awake hclosed s).resolve_right ?_
      simp [draining, hstack]
    have hreaders := h.readers s
    have hwriters := h.writers s
    refine (hawake t rest hqueue).imp (fun hwriter => ?_) fun hblocked => ⟨hblocked.1, ?_⟩
    · rw [hwriter, Bool.toNat_true] at hwriters
      exact Finset.card_pos.mp (by omega)
    · exact Finset.card_pos.mp (hreaders ▸ hblocked.2)

/-- Where no hook runs, a task that is not settled has a task of its state that holds the lock. -/
theorem GateInv.settled_or_held (h : GateInv g) (hstack : g.stack = []) (ht : t < g.nextTask) :
    (g.tasks t).settled.length = 1 ∨
      ∃ u < g.nextTask, (g.tasks u).state = (g.tasks t).state ∧ (g.tasks u).phase.holds = true := by
  have hsettled := h.settled t ht
  rw [hsettled]
  cases hphase : (g.tasks t).phase with
  | queued =>
    refine Or.inr ?_
    have hmem := (h.mem_queue (g.tasks t).state t).mpr ⟨ht, rfl, hphase⟩
    obtain ⟨head, rest, hqueue⟩ := List.exists_cons_of_ne_nil (List.ne_nil_of_mem hmem)
    rcases h.head_blocked hstack hqueue with ⟨u, hu⟩ | ⟨-, u, hu⟩
    · obtain ⟨hlt, hstate, -, hholds⟩ := mem_holders.mp hu
      exact ⟨u, hlt, hstate, hholds⟩
    · obtain ⟨hlt, hstate, -, hholds⟩ := mem_holders.mp hu
      exact ⟨u, hlt, hstate, hholds⟩
  | scheduled => exact Or.inr ⟨t, ht, rfl, by rw [hphase]; rfl⟩
  | running => exact Or.inr ⟨t, ht, rfl, by rw [hphase]; rfl⟩
  | cleaning result => exact Or.inr ⟨t, ht, rfl, by rw [hphase]; rfl⟩
  | releasing =>
    have howed := h.owed t ht hphase
    rw [hstack] at howed
    cases howed
  | done => exact Or.inl rfl
  | cancelled => exact Or.inl rfl
  | refused => exact Or.inl rfl

end Lock

/-- A gate that has just been made. -/
theorem gateInv_initial (policy : GatePolicy) (name : String) :
    GateInv { name := name, policy := policy } := by
  have hnone : ∀ s mode, Gate.holders { name := name, policy := policy } s mode = ∅ := by
    intro s mode
    simp [Gate.holders]
  refine ⟨⟨⟨by simp, by simp, by simp, by simp, fun s => ?_, fun s => ?_, by simp, by simp, by simp,
    List.nodup_nil, by simp [releasing]⟩, fun _ s => Or.inl fun t rest hqueue => ?_, by simp, by simp,
    by simp [closingTasks]⟩, by simp⟩
  · rw [hnone]
    rfl
  · rw [hnone]
    rfl
  · cases hqueue

/-- The gate after a run. -/
theorem gateInv_run {g : Gate} (h : GateInv g) (events : List GateEvent) :
    GateInv (Runs.run assetGateStep g events) :=
  Runs.run_invariant_of_forall (fun _ event hinv => hinv.step event) h

theorem gateLater_run {g : Gate} (h : GateInv g) (events : List GateEvent) :
    GateLater g (Runs.run assetGateStep g events) := by
  have hmeets : Runs.Meets assetGateStep (fun _ _ => True) g events :=
    Runs.Meets.of_forall (fun _ _ => trivial) g events
  exact Runs.run_rel GateLater.refl (fun _ _ _ => GateLater.trans)
    (fun _ event hinv _ => GateInv.step hinv event) (fun _ event hinv _ => hinv.step_later event)
    h hmeets

/-- **The gate is a reader/writer lock.**  After every sequence of events, from the calls, the
hooks and the event loop, under every policy: two tasks that hold the lock of one key read; a task
that waits or holds the lock belongs to the one state object its key has; a function is called once
at most and never after its task was cancelled; a promise is settled once at most, and at the end
of an event it is settled unless a task of its state holds the lock; and at the end of an event the
head of a queue waits for an active writer or, if it is a writer, for an active reader. -/
theorem gate_excludes (policy : GatePolicy) (name : String) (earlier later : List GateEvent) :
    let before := Runs.run assetGateStep { name := name, policy := policy } earlier
    let g := Runs.run assetGateStep before later
    (∀ t < g.nextTask, ∀ u < g.nextTask, t ≠ u → (g.tasks t).phase.holds = true →
      (g.tasks u).phase.holds = true → (g.tasks t).key = (g.tasks u).key →
      (g.tasks t).mode = .nonBlocking ∧ (g.tasks u).mode = .nonBlocking) ∧
    (∀ t < g.nextTask, (g.tasks t).phase.isLive = true →
      g.states.lookup (g.tasks t).key = some (g.tasks t).state) ∧
    (∀ t < g.nextTask, (g.tasks t).starts ≤ 1 ∧ (g.tasks t).settled.length ≤ 1) ∧
    (∀ t < before.nextTask, (before.tasks t).cancelled = true →
      (g.tasks t).cancelled = true ∧ (g.tasks t).starts = 0) ∧
    (g.stack = [] → ∀ s t rest, (g.heap s).queue = t :: rest →
      (g.holders s .blocking).Nonempty ∨
        ((g.tasks t).mode = .blocking ∧ (g.holders s .nonBlocking).Nonempty)) ∧
    (g.stack = [] → ∀ t < g.nextTask, (g.tasks t).settled.length = 1 ∨
      ∃ u < g.nextTask, (g.tasks u).state = (g.tasks t).state ∧
        (g.tasks u).phase.holds = true) := by
  intro before g
  have hbefore : GateInv before := gateInv_run (gateInv_initial policy name) earlier
  have h : GateInv g := gateInv_run hbefore later
  refine ⟨fun t ht u hu hne hholds hholds' hkey => ⟨?_, ?_⟩, fun t ht hlive => (h.live t ht hlive).2,
    fun t ht => ⟨?_, ?_⟩, fun t ht hcancelled => ?_, fun hstack s t rest => h.head_blocked hstack,
    fun hstack t ht => h.settled_or_held hstack ht⟩
  · exact h.excludes ht hu hne hholds hholds' hkey
  · exact h.excludes hu ht hne.symm hholds' hholds hkey.symm
  · rw [h.starts t ht]
    cases (g.tasks t).phase <;> simp [TaskPhase.calls]
  · rw [h.settled t ht]
    cases (g.tasks t).phase <;> simp [TaskPhase.settlements]
  · have hphase : (before.tasks t).phase = .cancelled := by
      simpa [GateTask.cancelled] using hcancelled
    have hkept := (gateLater_run hbefore later).kept t ht (by rw [hphase]; rfl)
    change g.tasks t = before.tasks t at hkept
    rw [hkept, hbefore.starts t ht, hphase]
    exact ⟨hcancelled, rfl⟩

end PosseClient
