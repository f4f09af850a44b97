/-
# What the reader/writer gate keeps

The counters of a state object count the tasks that hold its lock, its queue lists the tasks that
wait for it, and a task that waits or holds a lock belongs to the state object its key has in the
map.  An event changes one task and one state object at a time; `GateSound.put` and
`GateSound.withTask` say what such a change has to respect.

* `AwakeAt` is the other half: no task at the head of a queue waits without a reason, up to the
  hooks that run and will drain their state when they return.
-/
import PosseClient.Concurrency.AsyncGate

namespace PosseClient

/-! ## 1. Phases -/

/-- The task holds the lock of its state. -/
def TaskPhase.holds : TaskPhase → Bool
  | .scheduled => true
  | .running => true
  | .cleaning _ => true
  | _ => false

@[simp] theorem holds_releasing : TaskPhase.releasing.holds = false := rfl

/-- The task waits for the lock or holds it. -/
def TaskPhase.isLive (phase : TaskPhase) : Bool := phase == .queued || phase.holds

theorem isLive_of_holds {phase : TaskPhase} (h : phase.holds = true) : phase.isLive = true := by
  rw [TaskPhase.isLive, h, Bool.or_true]

/-- How often the function has been called. -/
def TaskPhase.calls : TaskPhase → ℕ
  | .running => 1
  | .cleaning _ => 1
  | .releasing => 1
  | .done => 1
  | _ => 0

/-- How often the promise has been settled. -/
def TaskPhase.settlements : TaskPhase → ℕ
  | .done => 1
  | .cancelled => 1
  | .refused => 1
  | _ => 0

/-- The tasks that hold the lock of a state in a mode. -/
def Gate.holders (g : Gate) (s : ℕ) (mode : GateMode) : Finset ℕ :=
  (Finset.range g.nextTask).filter (fun t => (g.tasks t).state = s ∧ (g.tasks t).mode = mode ∧
    (g.tasks t).phase.holds = true)

/-- The tasks whose `onRelease` runs. -/
def releasing (stack : List GateFrame) : List ℕ :=
  stack.filterMap (fun frame => match frame with
    | .releaseHook t _ => some t
    | _ => none)

/-- The objects of a gate agree with each other. -/
structure GateSound (g : Gate) : Prop where
  below : ∀ p ∈ g.states, p.2 < g.nextState
  live : ∀ t < g.nextTask, (g.tasks t).phase.isLive = true → (g.tasks t).state < g.nextState ∧
    g.states.lookup (g.tasks t).key = some (g.tasks t).state
  queue_nodup : ∀ s, (g.heap s).queue.Nodup
  mem_queue : ∀ s t, t ∈ (g.heap s).queue ↔
    t < g.nextTask ∧ (g.tasks t).state = s ∧ (g.tasks t).phase = .queued
  readers : ∀ s, (g.heap s).activeReaders = (g.holders s .nonBlocking).card
  writers : ∀ s, (g.heap s).activeWriter.toNat = (g.holders s .blocking).card
  exclusive : ∀ s, (g.heap s).activeWriter = true → (g.heap s).activeReaders = 0
  starts : ∀ t < g.nextTask, (g.tasks t).starts = (g.tasks t).phase.calls
  settled : ∀ t < g.nextTask, (g.tasks t).settled.length = (g.tasks t).phase.settlements
  releasing_nodup : (releasing g.stack).Nodup
  of_releasing : ∀ t ∈ releasing g.stack, t < g.nextTask ∧ (g.tasks t).phase = .releasing

theorem mem_holders {g : Gate} {s t : ℕ} {mode : GateMode} :
    t ∈ g.holders s mode ↔ t < g.nextTask ∧ (g.tasks t).state = s ∧ (g.tasks t).mode = mode ∧
      (g.tasks t).phase.holds = true := by
  simp [Gate.holders]

/-! ## 2. One task changes -/

/-- A change of one task. -/
structure TaskChange (task task' : GateTask) : Prop where
  key : task'.key = task.key
  state : task'.state = task.state
  mode : task'.mode = task.mode
  live : task'.phase.isLive = true → task.phase.isLive = true
  starts : task'.starts = task'.phase.calls
  settled : task'.settled.length = task'.phase.settlements

/-- The number of holders, up to one task. -/
theorem card_erase_add (A : Finset ℕ) (t : ℕ) :
    A.card = (A.erase t).card + if t ∈ A then 1 else 0 := by
  by_cases ht : t ∈ A
  · rw [if_pos ht, Finset.card_erase_add_one ht]
  · rw [if_neg ht, Finset.erase_eq_of_notMem ht, Nat.add_zero]

/-- How the number of holders of one mode moves. -/
theorem card_holders_update {g g' : Gate} {t : ℕ} (hnext : g'.nextTask = g.nextTask)
    (hother : ∀ u, u ≠ t → g'.tasks u = g.tasks u) (s : ℕ) (mode : GateMode) :
    (g'.holders s mode).card + (if t ∈ g.holders s mode then 1 else 0) =
      (g.holders s mode).card + (if t ∈ g'.holders s mode then 1 else 0) := by
  have herase : (g'.holders s mode).erase t = (g.holders s mode).erase t := by
    ext u
    rw [Finset.mem_erase, Finset.mem_erase, mem_holders, mem_holders, hnext]
    refine and_congr_right fun hu => ?_
    rw [hother u hu]
  have hcard' := card_erase_add (g'.holders s mode) t
  have hcard := card_erase_add (g.holders s mode) t
  rw [herase] at hcard'
  omega

/-- The gate with one task, its state object and the stack changed. -/
def Gate.put (g : Gate) (t : ℕ) (task : GateTask) (state : KeyState) (stack : List GateFrame) :
    Gate :=
  { (g.setState task.state state).setTask t task with stack := stack }

@[simp] theorem setTask_tasks_self {g : Gate} {t : ℕ} {task : GateTask} :
    (g.setTask t task).tasks t = task := by
  simp [Gate.setTask]

theorem setTask_tasks_of_ne {g : Gate} {t u : ℕ} {task : GateTask} (h : u ≠ t) :
    (g.setTask t task).tasks u = g.tasks u := by
  simp [Gate.setTask, h]

section Put

variable {g : Gate} {t : ℕ} {task : GateTask} {state : KeyState} {stack : List GateFrame}

@[simp] theorem put_tasks_self : (g.put t task state stack).tasks t = task := by
  simp [Gate.put, Gate.setTask]

theorem put_tasks_of_ne {u : ℕ} (h : u ≠ t) :
    (g.put t task state stack).tasks u = g.tasks u := by
  simp [Gate.put, Gate.setTask, Gate.setState, h]

@[simp] theorem put_heap_self : (g.put t task state stack).heap task.state = state := by
  simp [Gate.put, Gate.setTask, Gate.setState]

theorem put_heap_of_ne {s : ℕ} (h : s ≠ task.state) :
    (g.put t task state stack).heap s = g.heap s := by
  simp [Gate.put, Gate.setTask, Gate.setState, h]

/-- **One task changes.**  Its state object follows: it leaves the queue if it no longer waits, and
the counter of its mode moves with the lock it holds. -/
theorem GateSound.put (h : GateSound g) (ht : t < g.nextTask) (hchange : TaskChange (g.tasks t) task)
    (hqueue : state.queue.Nodup ∧ ∀ u, u ∈ state.queue ↔
      (u ∈ (g.heap task.state).queue ∧ u ≠ t) ∨ (u = t ∧ task.phase = .queued))
    (hreaders : state.activeReaders +
        (if task.mode = .nonBlocking ∧ (g.tasks t).phase.holds = true then 1 else 0) =
      (g.heap task.state).activeReaders +
        (if task.mode = .nonBlocking ∧ task.phase.holds = true then 1 else 0))
    (hwriters : state.activeWriter.toNat +
        (if task.mode = .blocking ∧ (g.tasks t).phase.holds = true then 1 else 0) =
      (g.heap task.state).activeWriter.toNat +
        (if task.mode = .blocking ∧ task.phase.holds = true then 1 else 0))
    (hexclusive : state.activeWriter = true → state.activeReaders = 0)
    (hstack : (releasing stack).Nodup ∧ ∀ u ∈ releasing stack,
      (u ∈ releasing g.stack ∧ u ≠ t) ∨ (u = t ∧ task.phase = .releasing)) :
    GateSound (g.put t task state stack) := by
  have hother : ∀ u, u ≠ t → (g.put t task state stack).tasks u = g.tasks u :=
    fun u hu => put_tasks_of_ne hu
  have hnext : (g.put t task state stack).nextTask = g.nextTask := rfl
  have hcard := card_holders_update hnext hother
  have hmem : ∀ s mode, t ∈ g.holders s mode ↔
      task.state = s ∧ task.mode = mode ∧ (g.tasks t).phase.holds = true := by
    intro s mode
    rw [mem_holders, hchange.state, hchange.mode]
    exact and_iff_right ht
  have hmem' : ∀ s mode, t ∈ (g.put t task state stack).holders s mode ↔
      task.state = s ∧ task.mode = mode ∧ task.phase.holds = true := by
    intro s mode
    rw [mem_holders, put_tasks_self]
    exact and_iff_right ht
  refine ⟨h.below, fun u hu hlive => ?_, fun s => ?_, fun s u => ?_, fun s => ?_, fun s => ?_,
    fun s => ?_, fun u hu => ?_, fun u hu => ?_, hstack.1, fun u hu => ?_⟩
  · by_cases hut : u = t
    · subst hut
      rw [put_tasks_self] at hlive ⊢
      rw [hchange.key, hchange.state]
      exact h.live u hu (hchange.live hlive)
    · rw [hother u hut] at hlive ⊢
      exact h.live u hu hlive
  · by_cases hs : s = task.state
    · rw [hs, put_heap_self]
      exact hqueue.1
    · rw [put_heap_of_ne hs]
      exact h.queue_nodup s
  · have hold := h.mem_queue s u
    by_cases hs : s = task.state
    · subst hs
      rw [put_heap_self, hqueue.2]
      by_cases hut : u = t
      · subst hut
        simp [Gate.put, Gate.setTask, Gate.setState, ht]
      · rw [hother u hut]
        simp only [hut, false_and, or_false, ne_eq, not_false_iff, and_true]
        exact hold
    · rw [put_heap_of_ne hs]
      by_cases hut : u = t
      · subst hut
        rw [put_tasks_self, hold, ← hchange.state]
        constructor
        · rintro ⟨-, rfl, -⟩
          exact absurd rfl hs
        · rintro ⟨-, rfl, -⟩
          exact absurd rfl hs
      · rw [hother u hut]
        exact hold
  · have hmoved := hcard s .nonBlocking
    rw [if_congr (hmem s .nonBlocking) rfl rfl, if_congr (hmem' s .nonBlocking) rfl rfl] at hmoved
    have hold := h.readers s
    by_cases hs : task.state = s
    · subst hs
      rw [put_heap_self]
      simp only [true_and] at hmoved
      omega
    · rw [put_heap_of_ne (Ne.symm hs)]
      simp only [hs, false_and, if_false] at hmoved
      omega
  · have hmoved := hcard s .blocking
    rw [if_congr (hmem s .blocking) rfl rfl, if_congr (hmem' s .blocking) rfl rfl] at hmoved
    have hold := h.writers s
    by_cases hs : task.state = s
    · subst hs
      rw [put_heap_self]
      simp only [true_and] at hmoved
      omega
    · rw [put_heap_of_ne (Ne.symm hs)]
      simp only [hs, false_and, if_false] at hmoved
      omega
  · by_cases hs : s = task.state
    · rw [hs, put_heap_self]
      exact hexclusive
    · rw [put_heap_of_ne hs]
      exact h.exclusive s
  · by_cases hut : u = t
    · rw [hut, put_tasks_self]
      exact hchange.starts
    · rw [hother u hut]
      exact h.starts u hu
  · by_cases hut : u = t
    · rw [hut, put_tasks_self]
      exact hchange.settled
    · rw [hother u hut]
      exact h.settled u hu
  · rcases hstack.2 u hu with ⟨hold, hut⟩ | ⟨rfl, hphase⟩
    · rw [hother u hut]
      exact h.of_releasing u hold
    · rw [put_tasks_self]
      exact ⟨ht, hphase⟩

end Put

/-! ## 3. The changes an event makes -/

section Changes

variable {g : Gate} {s t : ℕ}

/-- Parts of the gate that the invariant does not read. -/
theorem GateSound.congr {g g' : Gate} (h : GateSound g) (hheap : g'.heap = g.heap)
    (htasks : g'.tasks = g.tasks) (hnext : g'.nextTask = g.nextTask)
    (hstates : g'.states = g.states) (hnextState : g'.nextState = g.nextState)
    (hstack : (releasing g'.stack).Nodup ∧ ∀ u ∈ releasing g'.stack, u ∈ releasing g.stack) :
    GateSound g' := by
  obtain ⟨name', policy', closed', states', heap', nextState', tasks', nextTask', stack',
    cleanups'⟩ := g'
  subst hheap htasks hnext hstates hnextState
  exact ⟨h.below, h.live, h.queue_nodup, h.mem_queue, h.readers, h.writers, h.exclusive, h.starts,
    h.settled, hstack.1, fun u hu => h.of_releasing u (hstack.2 u hu)⟩

theorem GateSound.cleanupState (h : GateSound g) (key : String) (s : ℕ) :
    GateSound (g.cleanupState key s) := by
  unfold Gate.cleanupState
  split_ifs with hidle
  · exact h.congr rfl rfl rfl rfl rfl ⟨h.releasing_nodup, fun _ => id⟩
  · exact h

theorem shift_startReader (hs : (g.tasks t).state = s) (rest : List ℕ) :
    (g.shift s rest).startReader s t = g.put t { g.tasks t with phase := .scheduled }
      { g.heap s with queue := rest, activeReaders := (g.heap s).activeReaders + 1 } g.stack := by
  simp [Gate.shift, Gate.startReader, Gate.move, Gate.put, Gate.setTask, Gate.setState, hs]

theorem shift_startWriter (hs : (g.tasks t).state = s) (rest : List ℕ) :
    (g.shift s rest).startWriter s t = g.put t { g.tasks t with phase := .scheduled }
      { g.heap s with queue := rest, activeWriter := true } g.stack := by
  simp [Gate.shift, Gate.startWriter, Gate.move, Gate.put, Gate.setTask, Gate.setState, hs]

/-- The head of a queue waits there. -/
theorem GateSound.head (h : GateSound g) {rest : List ℕ} (hqueue : (g.heap s).queue = t :: rest) :
    t < g.nextTask ∧ (g.tasks t).state = s ∧ (g.tasks t).phase = .queued :=
  (h.mem_queue s t).mp (hqueue ▸ List.mem_cons_self)

/-- The queue without its head. -/
theorem GateSound.tail (h : GateSound g) {rest : List ℕ} (hqueue : (g.heap s).queue = t :: rest) :
    rest.Nodup ∧ ∀ u, u ∈ rest ↔ u ∈ (g.heap s).queue ∧ u ≠ t := by
  have hnd := h.queue_nodup s
  rw [hqueue] at hnd ⊢
  rw [List.nodup_cons] at hnd
  refine ⟨hnd.2, fun u => ⟨fun hu => ⟨List.mem_cons_of_mem t hu, ?_⟩, ?_⟩⟩
  · rintro rfl
    exact hnd.1 hu
  · rintro ⟨hu, hne⟩
    exact (List.mem_cons.mp hu).resolve_left hne

/-- The frames of the other tasks, where the one that changes is not releasing. -/
theorem GateSound.same_stack (h : GateSound g) {phase : TaskPhase}
    (hphase : (g.tasks t).phase ≠ .releasing) :
    (releasing g.stack).Nodup ∧ ∀ u ∈ releasing g.stack,
      (u ∈ releasing g.stack ∧ u ≠ t) ∨ (u = t ∧ phase = .releasing) := by
  refine ⟨h.releasing_nodup, fun u hu => Or.inl ⟨hu, ?_⟩⟩
  rintro rfl
  exact hphase (h.of_releasing u hu).2

/-- A task that waits has not been called, and its promise is open. -/
theorem GateSound.of_queued (h : GateSound g) (ht : t < g.nextTask)
    (hphase : (g.tasks t).phase = .queued) :
    (g.tasks t).starts = 0 ∧ (g.tasks t).settled = [] := by
  have hstarts := h.starts t ht
  have hsettled := h.settled t ht
  rw [hphase] at hstarts hsettled
  exact ⟨hstarts, List.length_eq_zero_iff.mp hsettled⟩

theorem GateSound.startReader (h : GateSound g) {rest : List ℕ}
    (hqueue : (g.heap s).queue = t :: rest) (hmode : (g.tasks t).mode = .nonBlocking)
    (hwriter : (g.heap s).activeWriter = false) :
    GateSound ((g.shift s rest).startReader s t) := by
  obtain ⟨ht, hs, hphase⟩ := h.head hqueue
  obtain ⟨hnd, hrest⟩ := h.tail hqueue
  obtain ⟨hstarts, hsettled⟩ := h.of_queued ht hphase
  subst hs
  rw [shift_startReader rfl]
  refine h.put ht ⟨rfl, rfl, rfl, fun _ => by rw [hphase]; rfl, hstarts, by rw [hsettled]; rfl⟩
    ⟨hnd, fun u => ?_⟩ ?_ ?_ ?_ (h.same_stack (by simp [hphase]))
  · rw [hrest]
    simp
  · simp [hmode, hphase, TaskPhase.holds]
  · simp [hmode]
  · simp [hwriter]

theorem GateSound.startWriter (h : GateSound g) {rest : List ℕ}
    (hqueue : (g.heap s).queue = t :: rest) (hmode : (g.tasks t).mode = .blocking)
    (hwriter : (g.heap s).activeWriter = false) (hreaders : (g.heap s).activeReaders = 0) :
    GateSound ((g.shift s rest).startWriter s t) := by
  obtain ⟨ht, hs, hphase⟩ := h.head hqueue
  obtain ⟨hnd, hrest⟩ := h.tail hqueue
  obtain ⟨hstarts, hsettled⟩ := h.of_queued ht hphase
  subst hs
  rw [shift_startWriter rfl]
  refine h.put ht ⟨rfl, rfl, rfl, fun _ => by rw [hphase]; rfl, hstarts, by rw [hsettled]; rfl⟩
    ⟨hnd, fun u => ?_⟩ ?_ ?_ ?_ (h.same_stack (by simp [hphase]))
  · rw [hrest]
    simp
  · simp [hmode]
  · simp [hmode, hphase, hwriter, TaskPhase.holds]
  · intro _
    exact hreaders

/-- `#cancelWaiter` of a task that waits. -/
theorem cancelWaiter_queued (hphase : (g.tasks t).phase = .queued) (outcome : GateOutcome) :
    g.cancelWaiter t outcome = (g.put t
      { g.tasks t with phase := .cancelled, settled := (g.tasks t).settled ++ [outcome] }
      { g.heap (g.tasks t).state with
        queue := (g.heap (g.tasks t).state).queue.filter (· != t) }
      (.cancelHook t :: g.stack), true) := by
  simp [Gate.cancelWaiter, hphase, Gate.settle, Gate.put, Gate.setTask, Gate.setState]

/-- `#cancelWaiter` of any other. -/
theorem cancelWaiter_other (hphase : (g.tasks t).phase ≠ .queued) (outcome : GateOutcome) :
    g.cancelWaiter t outcome = (g, false) := by
  simp [Gate.cancelWaiter, hphase]

theorem GateSound.cancelWaiter (h : GateSound g) (ht : t < g.nextTask) (outcome : GateOutcome) :
    GateSound (g.cancelWaiter t outcome).1 := by
  by_cases hphase : (g.tasks t).phase = .queued
  · obtain ⟨hstarts, hsettled⟩ := h.of_queued ht hphase
    rw [cancelWaiter_queued hphase]
    refine h.put ht ⟨rfl, rfl, rfl, fun _ => by rw [hphase]; rfl, hstarts,
      by rw [hsettled]; rfl⟩ ⟨(h.queue_nodup _).filter _, fun u => ?_⟩ ?_ ?_
      (h.exclusive _) (h.same_stack (by simp [hphase]))
    · simp [List.mem_filter]
    · simp [hphase, TaskPhase.holds]
    · simp [hphase, TaskPhase.holds]
  · rw [cancelWaiter_other hphase]
    exact h

theorem setTask_eq_put (task : GateTask) :
    g.setTask t task = g.put t task (g.heap task.state) g.stack := by
  simp [Gate.setTask, Gate.put, Gate.setState]

/-- A change of a task that touches neither the queue nor the lock of its state. -/
theorem GateSound.setTask (h : GateSound g) (ht : t < g.nextTask) {task : GateTask}
    (hchange : TaskChange (g.tasks t) task) (hqueued : (g.tasks t).phase ≠ .queued)
    (hqueued' : task.phase ≠ .queued) (hholds : task.phase.holds = (g.tasks t).phase.holds)
    (hstack : (releasing g.stack).Nodup ∧ ∀ u ∈ releasing g.stack,
      (u ∈ releasing g.stack ∧ u ≠ t) ∨ (u = t ∧ task.phase = .releasing)) :
    GateSound (g.setTask t task) := by
  rw [setTask_eq_put]
  refine h.put ht hchange ⟨h.queue_nodup _, fun u => ?_⟩ ?_ ?_ (h.exclusive _) hstack
  · constructor
    · intro hu
      refine Or.inl ⟨hu, ?_⟩
      rintro rfl
      exact hqueued ((h.mem_queue _ u).mp hu).2.2
    · rintro (⟨hu, -⟩ | ⟨rfl, hphase⟩)
      · exact hu
      · exact absurd hphase hqueued'
  · rw [hholds]
  · rw [hholds]

theorem GateSound.callTask (h : GateSound g) (t : ℕ) : GateSound (g.callTask t) := by
  unfold Gate.callTask
  by_cases hready : g.stack = [] ∧ t < g.nextTask ∧ (g.tasks t).phase = .scheduled
  · rw [if_pos hready]
    obtain ⟨-, ht, hphase⟩ := hready
    have hstarts := h.starts t ht
    have hsettled := h.settled t ht
    rw [hphase] at hstarts hsettled
    refine h.setTask ht ⟨rfl, rfl, rfl, fun _ => by rw [hphase]; rfl, ?_, hsettled⟩
      (by simp [hphase]) (by simp) (by rw [hphase]; rfl) (h.same_stack (by simp [hphase]))
    change (g.tasks t).starts + 1 = 1
    rw [hstarts]
    rfl
  · rw [if_neg hready]
    exact h

theorem GateSound.taskSettles (h : GateSound g) (t : ℕ) (result : TaskResult) :
    GateSound (g.taskSettles t result) := by
  unfold Gate.taskSettles
  by_cases hready : g.stack = [] ∧ t < g.nextTask ∧ (g.tasks t).phase = .running
  · rw [if_pos hready]
    obtain ⟨-, ht, hphase⟩ := hready
    have hstarts := h.starts t ht
    have hsettled := h.settled t ht
    rw [hphase] at hstarts hsettled
    exact h.setTask ht ⟨rfl, rfl, rfl, fun _ => by rw [hphase]; rfl, hstarts, hsettled⟩
      (by simp [hphase]) (by simp) (by rw [hphase]; rfl) (h.same_stack (by simp [hphase]))
  · rw [if_neg hready]
    exact h

/-- The state of a task that gives its lock back. -/
def GateTask.releaseState (task : GateTask) (state : KeyState) : KeyState :=
  match task.mode with
  | .nonBlocking => { state with activeReaders := state.activeReaders - 1 }
  | .blocking => { state with activeWriter := false }

theorem release_eq_put (outcome : GateOutcome) :
    { (g.release t).move t .releasing with stack := [.releaseHook t outcome] } =
      g.put t { g.tasks t with phase := .releasing }
        ((g.tasks t).releaseState (g.heap (g.tasks t).state)) [.releaseHook t outcome] := by
  unfold Gate.release GateTask.releaseState
  cases hmode : (g.tasks t).mode <;>
    simp [Gate.move, Gate.put, Gate.setTask, Gate.setState]

theorem GateSound.release (h : GateSound g) (ht : t < g.nextTask) {result : TaskResult}
    (hphase : (g.tasks t).phase = .cleaning result)
    (outcome : GateOutcome) :
    GateSound { (g.release t).move t .releasing with stack := [.releaseHook t outcome] } := by
  have hholds : (g.tasks t).phase.holds = true := by rw [hphase]; rfl
  have hmem : t ∈ g.holders (g.tasks t).state (g.tasks t).mode :=
    mem_holders.mpr ⟨ht, rfl, rfl, hholds⟩
  have hstarts := h.starts t ht
  have hsettled := h.settled t ht
  rw [hphase] at hstarts hsettled
  have hreaders := h.readers (g.tasks t).state
  have hwriters := h.writers (g.tasks t).state
  have hexclusive := h.exclusive (g.tasks t).state
  rw [release_eq_put]
  refine h.put ht ⟨rfl, rfl, rfl, (fun hlive => by cases hlive), hstarts, hsettled⟩ ?_ ?_ ?_ ?_
    ⟨List.nodup_singleton _, fun u hu => Or.inr ⟨List.mem_singleton.mp hu, rfl⟩⟩
  · have hqueue : ((g.tasks t).releaseState (g.heap (g.tasks t).state)).queue =
        (g.heap (g.tasks t).state).queue := by
      unfold GateTask.releaseState
      cases (g.tasks t).mode <;> rfl
    rw [hqueue]
    refine ⟨h.queue_nodup _, fun u => ⟨fun hu => Or.inl ⟨hu, ?_⟩, ?_⟩⟩
    · rintro rfl
      rw [((h.mem_queue _ u).mp hu).2.2] at hphase
      cases hphase
    · rintro (⟨hu, -⟩ | ⟨-, hqueued⟩)
      · exact hu
      · cases hqueued
  · cases hmode : (g.tasks t).mode with
    | blocking => simp [GateTask.releaseState, hmode]
    | nonBlocking =>
      have hpos : 0 < (g.holders (g.tasks t).state .nonBlocking).card :=
        Finset.card_pos.mpr ⟨t, hmode ▸ hmem⟩
      simp only [GateTask.releaseState, hmode, hholds, holds_releasing, and_self, and_false,
        if_true, Bool.false_eq_true, if_false]
      omega
  · cases hmode : (g.tasks t).mode with
    | nonBlocking => simp [GateTask.releaseState, hmode]
    | blocking =>
      have hpos : 0 < (g.holders (g.tasks t).state .blocking).card :=
        Finset.card_pos.mpr ⟨t, hmode ▸ hmem⟩
      have hwriter : (g.heap (g.tasks t).state).activeWriter = true := by
        cases hw : (g.heap (g.tasks t).state).activeWriter with
        | true => rfl
        | false =>
          rw [hw] at hwriters
          simp only [Bool.toNat_false] at hwriters
          omega
      simp [GateTask.releaseState, hmode, hholds, hwriter]
  · cases hmode : (g.tasks t).mode with
    | blocking => simp [GateTask.releaseState, hmode]
    | nonBlocking =>
      intro hwriter
      simp only [GateTask.releaseState, hmode] at hwriter ⊢
      rw [hexclusive hwriter]

theorem GateSound.settleDone (h : GateSound g) (ht : t < g.nextTask)
    (hphase : (g.tasks t).phase = .releasing) (hstack : t ∉ releasing g.stack)
    (outcome : GateOutcome) : GateSound (g.settle t .done outcome) := by
  have hstarts := h.starts t ht
  have hsettled := h.settled t ht
  rw [hphase] at hstarts hsettled
  refine h.setTask ht ⟨rfl, rfl, rfl, (fun hlive => by cases hlive), hstarts, ?_⟩
    (by simp [hphase]) (by simp) (by rw [hphase]; rfl)
    ⟨h.releasing_nodup, fun u hu => Or.inl ⟨hu, ?_⟩⟩
  · rw [List.length_append, hsettled]
    rfl
  · rintro rfl
    exact hstack hu

end Changes

/-! ## 4. New tasks, new and forgotten states -/

section Keys

variable {g : Gate}

theorem lookup_filter_ne (l : List (String × ℕ)) {key other : String} (h : other ≠ key) :
    (l.filter (fun p => p.1 != key)).lookup other = l.lookup other := by
  induction l with
  | nil => rfl
  | cons p l ih =>
    by_cases hp : p.1 = key
    · have hother : (other == p.1) = false := by
        rw [hp]
        simpa using h
      rw [List.filter_cons_of_neg (by simp [hp]), ih, List.lookup_cons, hother]
    · rw [List.filter_cons_of_pos (by simp [hp]), List.lookup_cons, List.lookup_cons, ih]

theorem mem_of_lookup {l : List (String × ℕ)} {key : String} {s : ℕ}
    (h : l.lookup key = some s) : (key, s) ∈ l := by
  obtain ⟨l₁, l₂, rfl, -⟩ := List.lookup_eq_some_iff.mp h
  simp

/-- The object of a state that is not in use. -/
theorem GateSound.heap_fresh (h : GateSound g) {s : ℕ} (hs : g.nextState ≤ s) :
    g.heap s = {} := by
  have hnone : ∀ t < g.nextTask, (g.tasks t).phase.isLive = true → (g.tasks t).state ≠ s := by
    intro t ht hlive
    have hstate := (h.live t ht hlive).1
    omega
  have hholders : ∀ mode, (g.holders s mode).card = 0 := by
    intro mode
    rw [Finset.card_eq_zero, Finset.eq_empty_iff_forall_notMem]
    intro t ht
    obtain ⟨hlt, hstate, -, hholds⟩ := mem_holders.mp ht
    exact hnone t hlt (by rw [TaskPhase.isLive, hholds, Bool.or_true]) hstate
  have hqueue : (g.heap s).queue = [] := by
    rw [List.eq_nil_iff_forall_not_mem]
    intro t ht
    obtain ⟨hlt, hstate, hphase⟩ := (h.mem_queue s t).mp ht
    exact hnone t hlt (by rw [hphase]; rfl) hstate
  have hreaders := h.readers s
  have hwriters := h.writers s
  rw [hholders] at hreaders hwriters
  have hwriter : (g.heap s).activeWriter = false := by
    cases hw : (g.heap s).activeWriter with
    | false => rfl
    | true =>
      rw [hw] at hwriters
      cases hwriters
  rcases hheap : g.heap s with ⟨readers, writer, queue⟩
  rw [hheap] at hreaders hwriter hqueue
  obtain rfl : readers = 0 := hreaders
  obtain rfl : writer = false := hwriter
  obtain rfl : queue = [] := hqueue
  rfl

/-- What `#stateFor` answers. -/
theorem GateSound.stateFor (h : GateSound g) (key : String) :
    GateSound (g.stateFor key).1 ∧ (g.stateFor key).2 < (g.stateFor key).1.nextState ∧
      (g.stateFor key).1.states.lookup key = some (g.stateFor key).2 ∧
      (g.stateFor key).1.heap = g.heap ∧ (g.stateFor key).1.tasks = g.tasks ∧
      (g.stateFor key).1.nextTask = g.nextTask ∧ (g.stateFor key).1.stack = g.stack ∧
      (g.stateFor key).1.closed = g.closed := by
  unfold Gate.stateFor
  cases hlookup : g.states.lookup key with
  | some s => exact ⟨h, h.below _ (mem_of_lookup hlookup), hlookup, rfl, rfl, rfl, rfl, rfl⟩
  | none =>
    have hheap : Function.update g.heap g.nextState {} = g.heap := by
      rw [← h.heap_fresh le_rfl, Function.update_eq_self]
    have hkept : ∀ k s, g.states.lookup k = some s →
        (g.states ++ [(key, g.nextState)]).lookup k = some s := by
      intro k s hs
      rw [List.lookup_append, hs]
      rfl
    have hgrown : ({ g.setState g.nextState {} with
        states := g.states ++ [(key, g.nextState)], nextState := g.nextState + 1 } : Gate) =
        { g with states := g.states ++ [(key, g.nextState)], nextState := g.nextState + 1 } := by
      simp only [Gate.setState, hheap]
    rw [hgrown]
    refine ⟨⟨fun p hp => ?_, fun t ht hlive => ?_, h.queue_nodup, h.mem_queue, h.readers, h.writers,
      h.exclusive, h.starts, h.settled, h.releasing_nodup, h.of_releasing⟩, Nat.lt_succ_self _, ?_,
      rfl, rfl, rfl, rfl, rfl⟩
    · rcases List.mem_append.mp hp with hold | hnew
      · exact (h.below p hold).trans (Nat.lt_succ_self _)
      · obtain rfl := List.mem_singleton.mp hnew
        exact Nat.lt_succ_self _
    · obtain ⟨hstate, hs⟩ := h.live t ht hlive
      exact ⟨hstate.trans (Nat.lt_succ_self _), hkept _ _ hs⟩
    · change (g.states ++ [(key, g.nextState)]).lookup key = _
      rw [List.lookup_append, hlookup]
      simp

/-- The map forgets an idle state: no task that waits or holds a lock belongs to it. -/
theorem GateSound.cleanupMicrotask (h : GateSound g) (key : String) (s : ℕ) :
    GateSound (g.cleanupMicrotask key s) := by
  unfold Gate.cleanupMicrotask
  by_cases hpending : g.stack = [] ∧ (key, s) ∈ g.cleanups
  swap
  · rw [if_neg hpending]
    exact h
  rw [if_pos hpending]
  by_cases hidle : g.states.lookup key = some s ∧ (g.heap s).isIdle = true
  swap
  · rw [if_neg hidle]
    exact h.congr rfl rfl rfl rfl rfl ⟨h.releasing_nodup, fun _ => id⟩
  rw [if_pos hidle]
  obtain ⟨hkey, hidle⟩ := hidle
  refine ⟨fun p hp => h.below p (List.mem_of_mem_filter hp), fun t ht hlive => ?_, h.queue_nodup,
    h.mem_queue, h.readers, h.writers, h.exclusive, h.starts, h.settled, h.releasing_nodup,
    h.of_releasing⟩
  obtain ⟨hstate, hlookup⟩ := h.live t ht hlive
  refine ⟨hstate, (lookup_filter_ne _ fun hsame => ?_).trans hlookup⟩
  -- the task would belong to the idle state
  rw [hsame, hkey] at hlookup
  have hs : (g.tasks t).state = s := (Option.some.inj hlookup).symm
  simp only [KeyState.isIdle, Bool.and_eq_true, Bool.not_eq_true', beq_iff_eq] at hidle
  obtain ⟨⟨hwriter, hreaders⟩, hqueue⟩ := hidle
  rw [TaskPhase.isLive, Bool.or_eq_true, beq_iff_eq] at hlive
  rcases hlive with hqueued | hholds
  · have hmem := (h.mem_queue s t).mpr ⟨ht, hs, hqueued⟩
    rw [hqueue] at hmem
    cases hmem
  · have hmem : t ∈ g.holders s (g.tasks t).mode := mem_holders.mpr ⟨ht, hs, rfl, hholds⟩
    have hpos := Finset.card_pos.mpr ⟨t, hmem⟩
    cases hmode : (g.tasks t).mode with
    | nonBlocking =>
      rw [hmode, ← h.readers, hreaders] at hpos
      exact absurd hpos (lt_irrefl 0)
    | blocking =>
      rw [hmode, ← h.writers, hwriter] at hpos
      exact absurd hpos (lt_irrefl 0)

/-- The gate with one task more, in the queue or not. -/
def Gate.withTask (g : Gate) (task : GateTask) (queue : List ℕ) (stack : List GateFrame) : Gate :=
  { g.setState task.state { g.heap task.state with queue := queue } with
    tasks := Function.update g.tasks g.nextTask task, nextTask := g.nextTask + 1, stack := stack }

/-- **One task more.** -/
theorem GateSound.withTask (h : GateSound g) {task : GateTask} {queue : List ℕ}
    {stack : List GateFrame} (hholds : task.phase.holds = false)
    (hqueued : task.phase = .queued → task.state < g.nextState ∧
      g.states.lookup task.key = some task.state)
    (hqueue : queue.Nodup ∧ ∀ u, u ∈ queue ↔
      u ∈ (g.heap task.state).queue ∨ (u = g.nextTask ∧ task.phase = .queued))
    (hstarts : task.starts = task.phase.calls)
    (hsettled : task.settled.length = task.phase.settlements)
    (hstack : (releasing stack).Nodup ∧ ∀ u ∈ releasing stack, u ∈ releasing g.stack) :
    GateSound (g.withTask task queue stack) := by
  have hself : (g.withTask task queue stack).tasks g.nextTask = task := by simp [Gate.withTask]
  have hold : ∀ u < g.nextTask, (g.withTask task queue stack).tasks u = g.tasks u := by
    intro u hu
    simp [Gate.withTask, hu.ne]
  have hcases : ∀ u < g.nextTask + 1, u < g.nextTask ∨ u = g.nextTask := by omega
  have hholders : ∀ s mode, (g.withTask task queue stack).holders s mode = g.holders s mode := by
    intro s mode
    ext u
    rw [mem_holders, mem_holders]
    constructor
    · rintro ⟨hu, hs, hmode, hu'⟩
      rcases hcases u hu with hlt | rfl
      · rw [hold u hlt] at hs hmode hu'
        exact ⟨hlt, hs, hmode, hu'⟩
      · rw [hself, hholds] at hu'
        cases hu'
    · rintro ⟨hu, hs, hmode, hu'⟩
      rw [hold u hu]
      exact ⟨hu.trans (Nat.lt_succ_self _), hs, hmode, hu'⟩
  have hheap : ∀ s, s ≠ task.state → (g.withTask task queue stack).heap s = g.heap s := by
    intro s hs
    simp [Gate.withTask, Gate.setState, hs]
  have hheap' : (g.withTask task queue stack).heap task.state =
      { g.heap task.state with queue := queue } := by
    simp [Gate.withTask, Gate.setState]
  refine ⟨h.below, fun u hu hlive => ?_, fun s => ?_, fun s u => ?_, fun s => ?_, fun s => ?_,
    fun s => ?_, fun u hu => ?_, fun u hu => ?_, hstack.1, fun u hu => ?_⟩
  · rcases hcases u hu with hlt | rfl
    · rw [hold u hlt] at hlive ⊢
      exact h.live u hlt hlive
    · rw [hself] at hlive ⊢
      rw [TaskPhase.isLive, hholds, Bool.or_false, beq_iff_eq] at hlive
      exact hqueued hlive
  · by_cases hs : s = task.state
    · rw [hs, hheap']
      exact hqueue.1
    · rw [hheap s hs]
      exact h.queue_nodup s
  · have hmem := h.mem_queue s u
    by_cases hu : u = g.nextTask
    · subst hu
      rw [hself]
      have hnot : g.nextTask ∉ (g.heap s).queue := fun hin => lt_irrefl _ (hmem.mp hin).1
      by_cases hs : s = task.state
      · subst hs
        rw [hheap', hqueue.2]
        constructor
        · rintro (hin | ⟨-, hphase⟩)
          · exact absurd hin hnot
          · exact ⟨Nat.lt_succ_self _, rfl, hphase⟩
        · rintro ⟨-, -, hphase⟩
          exact Or.inr ⟨rfl, hphase⟩
      · rw [hheap s hs]
        refine ⟨fun hin => absurd hin hnot, ?_⟩
        rintro ⟨-, rfl, -⟩
        exact absurd rfl hs
    · have hlt : u < (g.withTask task queue stack).nextTask ↔ u < g.nextTask := by
        change u < g.nextTask + 1 ↔ _
        omega
      have htask : (g.withTask task queue stack).tasks u = g.tasks u := by simp [Gate.withTask, hu]
      rw [hlt, htask, ← hmem]
      by_cases hs : s = task.state
      · subst hs
        rw [hheap', hqueue.2]
        simp [hu]
      · rw [hheap s hs]
  · rw [hholders, ← h.readers]
    by_cases hs : s = task.state
    · rw [hs, hheap']
    · rw [hheap s hs]
  · rw [hholders, ← h.writers]
    by_cases hs : s = task.state
    · rw [hs, hheap']
    · rw [hheap s hs]
  · have hexclusive := h.exclusive s
    by_cases hs : s = task.state
    · subst hs
      rw [hheap']
      exact hexclusive
    · rw [hheap s hs]
      exact hexclusive
  · rcases hcases u hu with hlt | rfl
    · rw [hold u hlt]
      exact h.starts u hlt
    · rw [hself]
      exact hstarts
  · rcases hcases u hu with hlt | rfl
    · rw [hold u hlt]
      exact h.settled u hlt
    · rw [hself]
      exact hsettled
  · obtain ⟨hlt, hphase⟩ := h.of_releasing u (hstack.2 u hu)
    rw [hold u hlt]
    exact ⟨hlt.trans (Nat.lt_succ_self _), hphase⟩

end Keys

end PosseClient
