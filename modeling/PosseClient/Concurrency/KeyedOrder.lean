/-
# The keyed gate bounds, orders, wakes and settles

What each event of the keyed gate keeps, and from it what holds after every sequence of events,
hooks that call the gate again included.

* `keyed_gate_bounds`: the number of slots of a key, the order of its tasks, the end of a cancelled
  one, the settlement of each promise, and that no task waits beside a free slot.
-/
import PosseClient.Concurrency.KeyedInvariant

namespace PosseClient

/-! ## 1. Draining -/

/-- Nothing waits for the queue, or its slots are taken. -/
def KeyedAwake (g : KeyedGate) (q : ℕ) : Prop :=
  (g.heap q).pending = [] ∨ g.limit ≤ (g.heap q).inFlight

/-- What `#drain` of a queue leaves alone. -/
structure KeyedDrains (q : ℕ) (g g' : KeyedGate) : Prop where
  moves : KeyedMoves g g'
  stack : g'.stack = g.stack
  closed : g'.closed = g.closed
  nextTask : g'.nextTask = g.nextTask
  heap : ∀ other, other ≠ q → g'.heap other = g.heap other
  shut : (g'.heap q).closed = (g.heap q).closed
  fewer : ∀ t ∈ (g'.heap q).pending, t ∈ (g.heap q).pending
  queue : ∀ t, (g'.tasks t).queue = (g.tasks t).queue
  phase : ∀ t, (g'.tasks t).phase = (g.tasks t).phase ∨
    ((g.tasks t).phase = .queued ∧ (g'.tasks t).phase = .scheduled)

theorem KeyedDrains.refl (q : ℕ) (g : KeyedGate) : KeyedDrains q g g :=
  ⟨KeyedMoves.refl g, rfl, rfl, rfl, fun _ _ => rfl, rfl, fun _ => id, fun _ => rfl,
    fun _ => Or.inl rfl⟩

theorem KeyedDrains.trans {q : ℕ} {a b c : KeyedGate} (h : KeyedDrains q a b)
    (h' : KeyedDrains q b c) : KeyedDrains q a c := by
  refine ⟨h.moves.trans h'.moves, h'.stack.trans h.stack,
    h'.closed.trans h.closed, h'.nextTask.trans h.nextTask,
    fun other hq => (h'.heap other hq).trans (h.heap other hq), h'.shut.trans h.shut,
    fun t ht => h.fewer t (h'.fewer t ht), fun t => (h'.queue t).trans (h.queue t), fun t => ?_⟩
  rcases h.phase t with hsame | ⟨hqueued, hscheduled⟩
  · rw [← hsame]
    exact h'.phase t
  · rcases h'.phase t with hsame' | ⟨hqueued', -⟩
    · exact Or.inr ⟨hqueued, hsame'.trans hscheduled⟩
    · rw [hscheduled] at hqueued'
      cases hqueued'

/-- What is releasing after a drain was releasing before. -/
theorem KeyedDrains.releasing {q : ℕ} {g g' : KeyedGate} (h : KeyedDrains q g g') (t : ℕ) :
    (g'.tasks t).phase = .releasing ↔ (g.tasks t).phase = .releasing := by
  rcases h.phase t with hsame | ⟨hqueued, hscheduled⟩
  · rw [hsame]
  · rw [hqueued, hscheduled]
    simp

/-- The head of a queue starts. -/
theorem KeyedSound.start_drains {g : KeyedGate} (h : KeyedSound g) {q t : ℕ} {rest : List ℕ}
    (hpending : (g.heap q).pending = t :: rest) (hfree : (g.heap q).inFlight < g.limit) :
    KeyedDrains q g ((g.shift q rest).start q t) ∧
      (((g.shift q rest).start q t).heap q).pending = rest := by
  obtain ⟨ht, hq, hphase, -⟩ := h.head hpending
  have hmove := h.start hpending hfree
  rw [shift_start hq] at hmove ⊢
  subst hq
  refine ⟨⟨.of hmove, rfl, rfl, rfl, fun other hother => keyedPut_heap_of_ne hother, ?_, ?_,
    fun u => ?_, fun u => ?_⟩, ?_⟩
  · rw [keyedPut_heap_self]
  · intro u hu
    rw [keyedPut_heap_self] at hu
    rw [hpending]
    exact List.mem_cons_of_mem t hu
  · by_cases hu : u = t
    · rw [hu, keyedPut_tasks_self]
    · rw [keyedPut_tasks_of_ne hu]
  · by_cases hu : u = t
    · rw [hu, keyedPut_tasks_self]
      exact Or.inr ⟨hphase, rfl⟩
    · rw [keyedPut_tasks_of_ne hu]
      exact Or.inl rfl
  · rw [keyedPut_heap_self]

/-- **The loop of `#drain`.**  It ends at an empty queue or with every slot taken. -/
theorem keyedDrainLoop_spec {q : ℕ} (pending : List ℕ) : ∀ {g : KeyedGate}, KeyedSound g →
    (g.heap q).pending = pending →
    KeyedDrains q g (g.drainLoop q pending) ∧ KeyedAwake (g.drainLoop q pending) q := by
  induction pending with
  | nil => exact fun _ hpending => ⟨KeyedDrains.refl q _, Or.inl hpending⟩
  | cons t rest ih =>
    intro g h hpending
    unfold KeyedGate.drainLoop
    by_cases hfree : (g.heap q).inFlight < g.limit
    · have hlive : (g.tasks t).cancelled = false := by
        simp [WorkTask.cancelled, (h.head hpending).2.2.1]
      rw [if_pos hfree, if_neg (by simp [hlive])]
      obtain ⟨hdrains, hrest⟩ := h.start_drains hpending hfree
      obtain ⟨hdrains', hawake⟩ := ih (h.moves hdrains.moves) hrest
      exact ⟨hdrains.trans hdrains', hawake⟩
    · rw [if_neg hfree]
      exact ⟨KeyedDrains.refl q g, Or.inr (not_lt.mp hfree)⟩

/-- **`#drain`.**  A closed queue starts nothing. -/
theorem keyedDrain_spec {g : KeyedGate} (h : KeyedSound g) (q : ℕ) :
    KeyedDrains q g (g.drain q) ∧ ((g.heap q).closed = true ∨ KeyedAwake (g.drain q) q) := by
  unfold KeyedGate.drain
  by_cases hclosed : (g.heap q).closed = true
  · rw [if_pos hclosed]
    exact ⟨KeyedDrains.refl q g, Or.inl hclosed⟩
  · rw [if_neg hclosed]
    obtain ⟨hdrains, hawake⟩ := keyedDrainLoop_spec (g.heap q).pending h rfl
    exact ⟨hdrains, Or.inr hawake⟩

/-! ## 2. The whole invariant -/

/-- The tasks whose `onRelease` runs. -/
def releasingTasks (stack : List WorkFrame) : List ℕ :=
  stack.filterMap (fun frame => match frame with
    | .releaseHook t _ => some t
    | _ => none)

/-- The tasks a `close` that was interrupted has still to cancel. -/
def tasksToCancel (stack : List WorkFrame) : List ℕ :=
  stack.flatMap (fun frame => match frame with
    | .closing pending _ _ => pending
    | _ => [])

/-- The queues it has still to close. -/
def queuesToClose (stack : List WorkFrame) : List ℕ :=
  stack.flatMap (fun frame => match frame with
    | .closing _ queues _ => queues
    | _ => [])

/-- A queue that is open keeps no task waiting beside a free slot, except where the `onRelease` of
one of its tasks runs; and only a gate that is closed has closed queues. -/
structure KeyedCore (g : KeyedGate) : Prop extends KeyedSound g where
  awake : ∀ q, (g.heap q).closed = true ∨ KeyedAwake g q ∨
    ∃ t ∈ releasingTasks g.stack, (g.tasks t).queue = q
  releasing_nodup : (releasingTasks g.stack).Nodup
  releasing : ∀ t, t ∈ releasingTasks g.stack ↔ t < g.nextTask ∧ (g.tasks t).phase = .releasing
  opens : g.closed = false → ∀ q, (g.heap q).closed = false
  waiting : ∀ t ∈ tasksToCancel g.stack, t < g.nextTask
  closing : ∀ pending queues reason, .closing pending queues reason ∈ g.stack → g.closed = true

/-- In addition, a closed gate has nothing waiting but what its `close` will cancel. -/
structure KeyedInv (g : KeyedGate) : Prop extends KeyedCore g where
  shut : g.closed = true → ∀ q, ∀ t ∈ (g.heap q).pending,
    ((g.heap q).closed = false ∧ q ∈ queuesToClose g.stack) ∨ t ∈ tasksToCancel g.stack

section Frames

variable (t : ℕ) (outcome : GateOutcome) (stack : List WorkFrame) (pending queues : List ℕ)
  (reason : String)

@[simp] theorem releasingTasks_cancelHook :
    releasingTasks (.cancelHook t :: stack) = releasingTasks stack := rfl

@[simp] theorem releasingTasks_releaseHook :
    releasingTasks (.releaseHook t outcome :: stack) = t :: releasingTasks stack := rfl

@[simp] theorem releasingTasks_closing :
    releasingTasks (.closing pending queues reason :: stack) = releasingTasks stack := rfl

@[simp] theorem tasksToCancel_cancelHook :
    tasksToCancel (.cancelHook t :: stack) = tasksToCancel stack := rfl

@[simp] theorem tasksToCancel_releaseHook :
    tasksToCancel (.releaseHook t outcome :: stack) = tasksToCancel stack := rfl

@[simp] theorem tasksToCancel_closing :
    tasksToCancel (.closing pending queues reason :: stack) = pending ++ tasksToCancel stack := rfl

@[simp] theorem queuesToClose_cancelHook :
    queuesToClose (.cancelHook t :: stack) = queuesToClose stack := rfl

@[simp] theorem queuesToClose_releaseHook :
    queuesToClose (.releaseHook t outcome :: stack) = queuesToClose stack := rfl

@[simp] theorem queuesToClose_closing :
    queuesToClose (.closing pending queues reason :: stack) = queues ++ queuesToClose stack := rfl

end Frames

/-- What the cancellation of a task that waits does. -/
structure KeyedCancels (t : ℕ) (g g' : KeyedGate) : Prop where
  moves : KeyedMoves g g'
  stack : g'.stack = .cancelHook t :: g.stack
  closed : g'.closed = g.closed
  nextTask : g'.nextTask = g.nextTask
  limit : g'.limit = g.limit
  inFlight : ∀ q, (g'.heap q).inFlight = (g.heap q).inFlight ∧ (g'.heap q).closed = (g.heap q).closed
  pending : ∀ q u, u ∈ (g'.heap q).pending → u ∈ (g.heap q).pending ∧ u ≠ t
  queue : ∀ u, (g'.tasks u).queue = (g.tasks u).queue
  releasing : ∀ u, (g'.tasks u).phase = .releasing ↔ (g.tasks u).phase = .releasing

section Core

variable {g : KeyedGate} {q t : ℕ}

theorem KeyedSound.cancels (h : KeyedSound g) (ht : t < g.nextTask)
    (hphase : (g.tasks t).phase = .queued) (outcome : GateOutcome) :
    KeyedCancels t g (g.cancelTask t outcome).1 ∧ (g.cancelTask t outcome).2 = true := by
  have hmoves := h.cancelTask ht outcome
  rw [cancelTask_queued hphase] at hmoves ⊢
  refine ⟨⟨hmoves, rfl, rfl, rfl, rfl, fun q => ?_, fun q u hu => ?_, fun u => ?_, fun u => ?_⟩, rfl⟩
  · by_cases hq : q = (g.tasks t).queue
    · subst hq
      simp [KeyedGate.put, KeyedGate.setTask, KeyedGate.setQueue]
    · simp [KeyedGate.put, KeyedGate.setTask, KeyedGate.setQueue, hq]
  · by_cases hq : q = (g.tasks t).queue
    · subst hq
      simpa [KeyedGate.put, KeyedGate.setTask, KeyedGate.setQueue] using hu
    · have hold : u ∈ (g.heap q).pending := by
        simpa [KeyedGate.put, KeyedGate.setTask, KeyedGate.setQueue, hq] using hu
      refine ⟨hold, ?_⟩
      rintro rfl
      exact hq ((h.mem_pending q u).mp hold).2.1.symm
  · by_cases hu : u = t
    · rw [hu, keyedPut_tasks_self]
    · rw [keyedPut_tasks_of_ne hu]
  · by_cases hu : u = t
    · rw [hu, keyedPut_tasks_self, hphase]
      simp
    · rw [keyedPut_tasks_of_ne hu]

/-- A queue whose counter stays and that has no task more waiting. -/
theorem KeyedAwake.mono {g' : KeyedGate} (h : KeyedAwake g q) (hlimit : g'.limit = g.limit)
    (hinFlight : (g'.heap q).inFlight = (g.heap q).inFlight)
    (hpending : ∀ t ∈ (g'.heap q).pending, t ∈ (g.heap q).pending) : KeyedAwake g' q := by
  rcases h with hempty | hfull
  · refine Or.inl (List.eq_nil_iff_forall_not_mem.mpr fun t ht => ?_)
    have hmem := hpending t ht
    rw [hempty] at hmem
    cases hmem
  · refine Or.inr ?_
    rw [hlimit, hinFlight]
    exact hfull

theorem KeyedCore.cancels {g' : KeyedGate} (h : KeyedCore g) (hcancels : KeyedCancels t g g') :
    KeyedCore g' := by
  refine ⟨h.toKeyedSound.moves hcancels.moves, fun q => ?_, ?_, fun u => ?_, fun hopen q => ?_,
    fun u hu => ?_, fun pending queues reason hmem => ?_⟩
  · rw [(hcancels.inFlight q).2, hcancels.stack]
    refine (h.awake q).imp id (Or.imp (fun hawake => ?_) ?_)
    · exact hawake.mono hcancels.limit (hcancels.inFlight q).1
        fun u hu => (hcancels.pending q u hu).1
    · rintro ⟨u, hu, hq⟩
      exact ⟨u, hu, (hcancels.queue u).trans hq⟩
  · rw [hcancels.stack]
    exact h.releasing_nodup
  · rw [hcancels.stack, hcancels.nextTask, hcancels.releasing]
    exact h.releasing u
  · rw [(hcancels.inFlight q).2]
    exact h.opens (hcancels.closed ▸ hopen) q
  · rw [hcancels.stack] at hu
    rw [hcancels.nextTask]
    exact h.waiting u hu
  · rw [hcancels.stack, List.mem_cons] at hmem
    rw [hcancels.closed]
    exact h.closing pending queues reason (hmem.resolve_left (by simp))

theorem KeyedInv.cancelTask (h : KeyedInv g) (ht : t < g.nextTask) (outcome : GateOutcome) :
    KeyedInv (g.cancelTask t outcome).1 := by
  by_cases hphase : (g.tasks t).phase = .queued
  swap
  · rw [cancelTask_other hphase]
    exact h
  obtain ⟨hcancels, -⟩ := h.toKeyedSound.cancels ht hphase outcome
  refine ⟨h.toKeyedCore.cancels hcancels, fun hclosed q u hu => ?_⟩
  rw [(hcancels.inFlight q).2, hcancels.stack]
  rw [hcancels.closed] at hclosed
  exact h.shut hclosed q u (hcancels.pending q u hu).1

/-! ## 3. Closing -/

/-- The gate with a frame of a `close` pushed. -/
theorem KeyedCore.pushClosing (h : KeyedCore g) (hclosed : g.closed = true)
    {pending queues : List ℕ} (reason : String) (hwaiting : ∀ t ∈ pending, t < g.nextTask) :
    KeyedCore { g with stack := .closing pending queues reason :: g.stack } := by
  refine ⟨h.toKeyedSound.move (h.withStack _), h.awake, h.releasing_nodup, h.releasing, h.opens,
    fun t ht => ?_, fun _ _ _ _ => hclosed⟩
  rcases List.mem_append.mp ht with hnew | hold
  · exact hwaiting t hnew
  · exact h.waiting t hold

/-- **The loop of `AsyncWorkQueue.close`.**  Either a hook interrupts it, and what it has not
cancelled yet is on the stack; or none of its tasks was waiting. -/
theorem closeTasks_spec (reason : String) (queues pending : List ℕ) : ∀ {g : KeyedGate}, KeyedCore g →
    g.closed = true → (∀ q, ∀ t ∈ (g.heap q).pending,
      ((g.heap q).closed = false ∧ (q ∈ queues ∨ q ∈ queuesToClose g.stack)) ∨ t ∈ pending ∨
        t ∈ tasksToCancel g.stack) →
    (∀ t ∈ pending, t < g.nextTask) →
    KeyedMoves g (g.closeTasks reason queues pending).1 ∧
      ((g.closeTasks reason queues pending).2 = true →
        KeyedInv (g.closeTasks reason queues pending).1) ∧
      ((g.closeTasks reason queues pending).2 = false →
        (g.closeTasks reason queues pending).1 = g ∧ ∀ t ∈ pending, (g.tasks t).phase ≠ .queued) := by
  induction pending with
  | nil =>
    intro g _ _ _ _
    exact ⟨KeyedMoves.refl _, fun hhook => (by cases hhook), fun _ => ⟨rfl, by simp⟩⟩
  | cons t rest ih =>
    intro g h hclosed hshut hwaiting
    unfold KeyedGate.closeTasks
    dsimp only
    have hrest : ∀ u ∈ rest, u < g.nextTask := fun u hu => hwaiting u (List.mem_cons_of_mem t hu)
    have hpushed : KeyedCore { g with stack := .closing rest queues reason :: g.stack } :=
      h.pushClosing hclosed reason hrest
    by_cases hphase : (g.tasks t).phase = .queued
    · obtain ⟨hcancels, hyes⟩ :=
        hpushed.toKeyedSound.cancels (hwaiting t List.mem_cons_self) hphase (.closed reason)
      rw [if_pos hyes]
      refine ⟨(KeyedMoves.of (h.withStack _)).trans hcancels.moves, fun _ => ?_,
        fun hno => ?_⟩
      · refine ⟨hpushed.cancels hcancels, fun _ q u hu => ?_⟩
        obtain ⟨hold, hne⟩ := hcancels.pending q u hu
        rw [(hcancels.inFlight q).2, hcancels.stack]
        simp only [queuesToClose_cancelHook, queuesToClose_closing, tasksToCancel_cancelHook,
          tasksToCancel_closing, List.mem_append]
        refine (hshut q u hold).imp id (Or.imp (fun hmem => ?_) id)
        exact (List.mem_cons.mp hmem).resolve_left hne
      · rw [hyes] at hno
        cases hno
    · have hother := cancelTask_other (g := { g with stack := .closing rest queues reason :: g.stack })
        hphase (.closed reason)
      rw [hother, if_neg (by simp)]
      obtain ⟨hmoves, hhook, hnone⟩ := ih h hclosed (fun q u hu => by
        refine (hshut q u hu).imp id (Or.imp (fun hmem => ?_) id)
        refine (List.mem_cons.mp hmem).resolve_left ?_
        rintro rfl
        exact hphase ((h.mem_pending q u).mp hu).2.2) hrest
      refine ⟨hmoves, hhook, fun hno => ⟨(hnone hno).1, fun u hu => ?_⟩⟩
      rcases List.mem_cons.mp hu with rfl | hmem
      · exact hphase
      · exact (hnone hno).2 u hmem

/-- A queue of a closed gate is closed. -/
theorem KeyedCore.closeQueue (h : KeyedCore g) (hclosed : g.closed = true) (q : ℕ) :
    KeyedMove g (g.closeQueue q).1 ∧ KeyedCore (g.closeQueue q).1 ∧
      (g.closeQueue q).1.closed = true ∧ (g.closeQueue q).1.stack = g.stack ∧
      (g.closeQueue q).1.nextTask = g.nextTask ∧
      (∀ t ∈ (g.closeQueue q).2, t < g.nextTask) ∧
      (∀ other, ∀ t ∈ ((g.closeQueue q).1.heap other).pending, t ∈ (g.heap other).pending ∧
        (other ≠ q → (g.heap other).closed = false → ((g.closeQueue q).1.heap other).closed = false) ∧
        (other = q → (g.heap other).closed = false → t ∈ (g.closeQueue q).2)) := by
  unfold KeyedGate.closeQueue
  by_cases hshut : (g.heap q).closed = true
  · rw [if_pos hshut]
    refine ⟨h.aside rfl rfl rfl rfl (fun _ => ⟨rfl, rfl⟩) rfl rfl, h, hclosed, rfl, rfl, by simp,
      fun other t ht => ⟨ht, fun _ => id, fun hsame hopen => ?_⟩⟩
    rw [hsame, hshut] at hopen
    cases hopen
  · rw [if_neg hshut]
    have hheap : ∀ other, ((g.setQueue q { g.heap q with closed := true }).heap other).pending =
        (g.heap other).pending ∧
        ((g.setQueue q { g.heap q with closed := true }).heap other).inFlight =
          (g.heap other).inFlight := by
      intro other
      by_cases hq : other = q
      · subst hq
        simp [KeyedGate.setQueue]
      · simp [KeyedGate.setQueue, hq]
    have hmove : KeyedMove g (g.setQueue q { g.heap q with closed := true }) :=
      h.aside rfl rfl rfl rfl hheap rfl rfl
    have hother : ∀ other, other ≠ q →
        (g.setQueue q { g.heap q with closed := true }).heap other = g.heap other := by
      intro other hq
      simp [KeyedGate.setQueue, hq]
    refine ⟨hmove, ⟨h.toKeyedSound.move hmove, fun other => ?_, h.releasing_nodup, h.releasing,
      fun hopen => ?_, h.waiting, h.closing⟩, hclosed, rfl, rfl, fun t ht => ?_, fun other t ht => ?_⟩
    · by_cases hq : other = q
      · subst hq
        simp [KeyedGate.setQueue]
      · rw [KeyedAwake, hother other hq]
        exact h.awake other
    · change g.closed = false at hopen
      rw [hclosed] at hopen
      cases hopen
    · exact ((h.mem_pending q t).mp (List.mem_of_mem_filter ht)).1
    · rw [(hheap other).1] at ht
      refine ⟨ht, fun hq hopen => by rw [hother other hq, hopen], fun hq _ => ?_⟩
      subst hq
      rw [List.mem_filter, decide_eq_true_iff]
      exact ⟨ht, ((h.mem_pending other t).mp ht).2.2⟩

/-- **The loop of `KeyedAsyncGate.close`.** -/
theorem keyedContinueClose_spec (reason : String) (queues : List ℕ) : ∀ {g : KeyedGate}
    (pending : List ℕ), KeyedCore g → g.closed = true →
    (∀ q, ∀ t ∈ (g.heap q).pending,
      ((g.heap q).closed = false ∧ (q ∈ queues ∨ q ∈ queuesToClose g.stack)) ∨ t ∈ pending ∨
        t ∈ tasksToCancel g.stack) →
    (∀ t ∈ pending, t < g.nextTask) →
    KeyedMoves g (g.continueClose reason queues pending) ∧
      KeyedInv (g.continueClose reason queues pending) := by
  induction queues with
  | nil =>
    intro g pending h hclosed hshut hwaiting
    unfold KeyedGate.continueClose
    obtain ⟨hmoves, hhook, hnone⟩ := closeTasks_spec reason [] pending h hclosed hshut hwaiting
    refine ⟨hmoves, ?_⟩
    cases hstopped : (g.closeTasks reason [] pending).2 with
    | true => exact hhook hstopped
    | false =>
      obtain ⟨hsame, hphase⟩ := hnone hstopped
      rw [hsame]
      refine ⟨h, fun _ q t ht => (hshut q t ht).imp ?_ fun hmem => hmem.resolve_left ?_⟩
      · rintro ⟨hopen, hmem⟩
        exact ⟨hopen, hmem.resolve_left List.not_mem_nil⟩
      · exact fun hmem' => hphase t hmem' ((h.mem_pending q t).mp ht).2.2
  | cons q queues ih =>
    intro g pending h hclosed hshut hwaiting
    unfold KeyedGate.continueClose
    dsimp only
    obtain ⟨hmoves, hhook, hnone⟩ :=
      closeTasks_spec reason (q :: queues) pending h hclosed hshut hwaiting
    cases hstopped : (g.closeTasks reason (q :: queues) pending).2 with
    | true =>
      rw [if_pos rfl]
      exact ⟨hmoves, hhook hstopped⟩
    | false =>
      rw [if_neg (by simp)]
      obtain ⟨hsame, hphase⟩ := hnone hstopped
      rw [hsame]
      obtain ⟨hmove, hcore, hclosed', hstack, hnext, hbound, hheap⟩ := h.closeQueue hclosed q
      obtain ⟨hrest, hinv⟩ := ih _ hcore hclosed' (fun other t ht => by
        obtain ⟨hold, hopen, hnew⟩ := hheap other t ht
        rw [hstack]
        have hnot : t ∉ pending := fun hmem => hphase t hmem ((h.mem_pending other t).mp hold).2.2
        rcases hshut other t hold with ⟨hopen', hmem⟩ | hmem
        · by_cases hq : other = q
          · exact Or.inr (Or.inl (hnew hq hopen'))
          · refine Or.inl ⟨hopen hq hopen', hmem.imp (fun hmem' => ?_) id⟩
            exact (List.mem_cons.mp hmem').resolve_left hq
        · exact Or.inr (Or.inr (hmem.resolve_left hnot))) (fun t ht => hnext ▸ hbound t ht)
      exact ⟨(KeyedMoves.of hmove).trans hrest, hinv⟩

end Core

/-! ## 4. Hooks that return -/

/-- A change that leaves the stack and the queues as they are, and releases nothing. -/
structure KeyedQuiet (g g' : KeyedGate) : Prop where
  moves : KeyedMoves g g'
  stack : g'.stack = g.stack
  closed : g'.closed = g.closed
  nextTask : g'.nextTask = g.nextTask
  heap : ∀ q, (g'.heap q).pending = (g.heap q).pending ∧
    (g'.heap q).inFlight = (g.heap q).inFlight ∧ (g'.heap q).closed = (g.heap q).closed
  queue : ∀ t, (g'.tasks t).queue = (g.tasks t).queue
  releasing : ∀ t, (g'.tasks t).phase = .releasing ↔ (g.tasks t).phase = .releasing

section Hooks

variable {g g' : KeyedGate} {q t : ℕ}

theorem KeyedMoves.limit (h : KeyedMoves g g') : g'.limit = g.limit :=
  congrArg (max 1) h.later.limit

theorem KeyedInv.quiet (h : KeyedInv g) (hquiet : KeyedQuiet g g') : KeyedInv g' := by
  refine ⟨⟨h.toKeyedSound.moves hquiet.moves, fun q => ?_, ?_, fun u => ?_, fun hopen q => ?_,
    fun u hu => ?_, fun pending queues reason hmem => ?_⟩, fun hclosed q u hu => ?_⟩
  · obtain ⟨hpending, hinFlight, hclosed⟩ := hquiet.heap q
    rw [hclosed, hquiet.stack]
    refine (h.awake q).imp id (Or.imp (fun hawake => ?_) ?_)
    · exact hawake.mono hquiet.moves.limit hinFlight fun u hu => hpending ▸ hu
    · rintro ⟨u, hu, hq⟩
      exact ⟨u, hu, (hquiet.queue u).trans hq⟩
  · rw [hquiet.stack]
    exact h.releasing_nodup
  · rw [hquiet.stack, hquiet.nextTask, hquiet.releasing]
    exact h.releasing u
  · rw [(hquiet.heap q).2.2]
    exact h.opens (hquiet.closed ▸ hopen) q
  · rw [hquiet.stack] at hu
    rw [hquiet.nextTask]
    exact h.waiting u hu
  · rw [hquiet.closed]
    exact h.closing pending queues reason (hquiet.stack ▸ hmem)
  · rw [(hquiet.heap q).1] at hu
    rw [(hquiet.heap q).2.2, hquiet.stack]
    exact h.shut (hquiet.closed ▸ hclosed) q u hu

/-- What follows a hook. -/
theorem KeyedSound.afterHook (h : KeyedSound g) (t : ℕ) :
    KeyedDrains (g.tasks t).queue g (g.afterHook t) ∧
      ((g.heap (g.tasks t).queue).closed = true ∨
        KeyedAwake (g.afterHook t) (g.tasks t).queue) := by
  unfold KeyedGate.afterHook
  dsimp only
  have hmove := h.cleanupQueueIfIdle (g.tasks t).key (g.tasks t).queue
  have hclean : KeyedDrains (g.tasks t).queue g
      (g.cleanupQueueIfIdle (g.tasks t).key (g.tasks t).queue) ∧
      (g.cleanupQueueIfIdle (g.tasks t).key (g.tasks t).queue).heap = g.heap := by
    unfold KeyedGate.cleanupQueueIfIdle at hmove ⊢
    split_ifs at hmove ⊢
    · exact ⟨⟨.of hmove, rfl, rfl, rfl, fun _ _ => rfl, rfl, fun _ => id, fun _ => rfl,
        fun _ => Or.inl rfl⟩, rfl⟩
    · exact ⟨KeyedDrains.refl _ g, rfl⟩
  obtain ⟨hdrains, hawake⟩ := keyedDrain_spec (h.move hmove) (g.tasks t).queue
  rw [hclean.2] at hawake
  exact ⟨hclean.1.trans hdrains, hawake⟩

/-- The queues after a hook of a task has returned; which tasks are releasing is not said. -/
theorem KeyedInv.popped (h : KeyedInv g) (t : ℕ) (below : List WorkFrame)
    (hreleasing : ∀ u ∈ releasingTasks g.stack, u = t ∨ u ∈ releasingTasks below)
    (hcancel : tasksToCancel g.stack = tasksToCancel below)
    (hclose : queuesToClose g.stack = queuesToClose below) (hbelow : ∀ frame ∈ below, frame ∈ g.stack)
    (hdrains : KeyedDrains (g.tasks t).queue { g with stack := below } g')
    (hawake : (g.heap (g.tasks t).queue).closed = true ∨ KeyedAwake g' (g.tasks t).queue) :
    (∀ q, (g'.heap q).closed = true ∨ KeyedAwake g' q ∨
      ∃ u ∈ releasingTasks g'.stack, (g'.tasks u).queue = q) ∧
    (g'.closed = false → ∀ q, (g'.heap q).closed = false) ∧
    (∀ u ∈ tasksToCancel g'.stack, u < g'.nextTask) ∧
    (∀ pending queues reason, .closing pending queues reason ∈ g'.stack → g'.closed = true) ∧
    (g'.closed = true → ∀ q, ∀ u ∈ (g'.heap q).pending,
      ((g'.heap q).closed = false ∧ q ∈ queuesToClose g'.stack) ∨ u ∈ tasksToCancel g'.stack) := by
  have hclosed : ∀ q, (g'.heap q).closed = (g.heap q).closed := by
    intro q
    by_cases hq : q = (g.tasks t).queue
    · rw [hq]
      exact hdrains.shut
    · rw [hdrains.heap q hq]
  have hpending : ∀ q, ∀ u ∈ (g'.heap q).pending, u ∈ (g.heap q).pending := by
    intro q u hu
    by_cases hq : q = (g.tasks t).queue
    · rw [hq] at hu ⊢
      exact hdrains.fewer u hu
    · rw [hdrains.heap q hq] at hu
      exact hu
  refine ⟨fun q => ?_, fun hopen q => ?_, fun u hu => ?_, fun pending queues reason hmem => ?_,
    fun hshut q u hu => ?_⟩
  · rw [hclosed]
    by_cases hq : q = (g.tasks t).queue
    · rw [hq]
      exact hawake.imp id Or.inl
    · refine (h.awake q).imp id (Or.imp (fun hold => ?_) ?_)
      · exact hold.mono hdrains.moves.limit (by rw [hdrains.heap q hq]) (hpending q)
      · rintro ⟨u, hu, huq⟩
        rcases hreleasing u hu with rfl | hbelow
        · exact absurd huq.symm hq
        · rw [hdrains.stack]
          exact ⟨u, hbelow, (hdrains.queue u).trans huq⟩
  · rw [hclosed]
    exact h.opens (hdrains.closed.symm.trans hopen) q
  · rw [hdrains.stack] at hu
    rw [hdrains.nextTask]
    exact h.waiting u (hcancel.symm ▸ hu)
  · rw [hdrains.stack] at hmem
    rw [hdrains.closed]
    exact h.closing pending queues reason (hbelow _ hmem)
  · rw [hclosed, hdrains.stack]
    have hold := h.shut (hdrains.closed.symm.trans hshut) q u (hpending q u hu)
    rw [hclose, hcancel] at hold
    exact hold

/-- The gate goes on with an interrupted `close`. -/
theorem KeyedInv.resume (h : KeyedInv g) : KeyedMoves g g.resume ∧ KeyedInv g.resume := by
  unfold KeyedGate.resume
  split
  swap
  · exact ⟨KeyedMoves.refl g, h⟩
  rename_i pending queues reason below hstack
  have hmove := h.withStack below
  have hreleasing : releasingTasks g.stack = releasingTasks below := by rw [hstack]; rfl
  have hcancel : tasksToCancel g.stack = pending ++ tasksToCancel below := by rw [hstack]; rfl
  have hclose : queuesToClose g.stack = queues ++ queuesToClose below := by rw [hstack]; rfl
  have hwaiting : ∀ u ∈ pending ++ tasksToCancel below, u < g.nextTask := hcancel ▸ h.waiting
  have hclosed : g.closed = true :=
    h.closing pending queues reason (hstack ▸ List.mem_cons_self)
  have hcore : KeyedCore { g with stack := below } := by
    refine ⟨h.toKeyedSound.move hmove, ?_, hreleasing ▸ h.releasing_nodup,
      hreleasing ▸ h.releasing, h.opens, fun u hu => hwaiting u (List.mem_append_right _ hu),
      fun _ _ _ _ => hclosed⟩
    rw [← hreleasing]
    exact h.awake
  obtain ⟨hmoves, hinv⟩ := keyedContinueClose_spec reason queues pending hcore hclosed (fun q u hu => by
    have hold := h.shut hclosed q u hu
    rw [hclose, hcancel, List.mem_append, List.mem_append] at hold
    exact hold) (fun u hu => hwaiting u (List.mem_append_left _ hu))
  exact ⟨(KeyedMoves.of hmove).trans hmoves, hinv⟩

/-- The promise of a task that gave its slot back is settled. -/
theorem KeyedSound.finish (h : KeyedSound g) (ht : t < g.nextTask)
    (hphase : (g.tasks t).phase = .releasing) (outcome : GateOutcome) :
    KeyedMove g (g.settle t .done outcome) := by
  have hstarts := h.starts t ht
  have hsettled := h.settled t ht
  rw [hphase] at hstarts hsettled
  have hput : g.settle t .done outcome = g.put t
      { g.tasks t with phase := .done, settled := (g.tasks t).settled ++ [outcome] }
      { g.heap (g.tasks t).queue with inFlight := (g.heap (g.tasks t).queue).inFlight }
      g.immediates g.stack := by
    simp [KeyedGate.settle, KeyedGate.put, KeyedGate.setTask, KeyedGate.setQueue]
  rw [hput]
  refine h.proceed ht (by rw [hphase]; rfl) (by rw [hphase]; rfl) _ _ _ rfl rfl rfl rfl
    (by simp [TaskPhase.holds]) ?_ ?_
  · rw [List.length_append, hsettled]
    rfl
  · rw [hphase]
    rfl

/-- **A hook returns.** -/
theorem KeyedInv.hookReturns (h : KeyedInv g) :
    KeyedMoves g g.hookReturns ∧ KeyedInv g.hookReturns := by
  unfold KeyedGate.hookReturns
  split
  · rename_i t below hstack
    have hmove := h.withStack below
    obtain ⟨hdrains, hawake⟩ := (h.toKeyedSound.move hmove).afterHook t
    have hreleasing : releasingTasks g.stack = releasingTasks below := by rw [hstack]; rfl
    obtain ⟨hawake', hopens, hwaiting, hclosing, hshut⟩ := h.popped t below
      (fun u hu => Or.inr (hreleasing ▸ hu)) (by rw [hstack]; rfl) (by rw [hstack]; rfl)
      (fun frame hmem => hstack ▸ List.mem_cons_of_mem _ hmem) hdrains hawake
    have hmoves := (KeyedMoves.of hmove).trans hdrains.moves
    have hinv : KeyedInv ({ g with stack := below }.afterHook t) := by
      refine ⟨⟨h.toKeyedSound.moves hmoves, hawake', ?_, fun u => ?_, hopens, hwaiting, hclosing⟩,
        hshut⟩
      · rw [hdrains.stack]
        exact hreleasing ▸ h.releasing_nodup
      · rw [hdrains.stack, hdrains.nextTask, hdrains.releasing]
        exact hreleasing ▸ h.releasing u
    obtain ⟨hrest, hinv'⟩ := hinv.resume
    exact ⟨hmoves.trans hrest, hinv'⟩
  · rename_i t outcome below hstack
    have hmove := h.withStack below
    obtain ⟨hdrains, hawake⟩ := (h.toKeyedSound.move hmove).afterHook t
    have hreleasing : releasingTasks g.stack = t :: releasingTasks below := by rw [hstack]; rfl
    have hnodup := h.releasing_nodup
    have hiff := h.releasing
    rw [hreleasing] at hnodup hiff
    obtain ⟨hnot, hnodup⟩ := List.nodup_cons.mp hnodup
    obtain ⟨ht, hphase⟩ := (hiff t).mp List.mem_cons_self
    obtain ⟨hawake', hopens, hwaiting, hclosing, hshut⟩ := h.popped t below
      (fun u hu => List.mem_cons.mp (hreleasing ▸ hu)) (by rw [hstack]; rfl) (by rw [hstack]; rfl)
      (fun frame hmem => hstack ▸ List.mem_cons_of_mem _ hmem) hdrains hawake
    have hmoves := (KeyedMoves.of hmove).trans hdrains.moves
    have hphase' := (hdrains.releasing t).mpr hphase
    generalize ({ g with stack := below } : KeyedGate).afterHook t = g' at *
    have hfinish := (h.toKeyedSound.moves hmoves).finish (hdrains.nextTask.symm ▸ ht) hphase' outcome
    have hmoves' := hmoves.trans (.of hfinish)
    have hself : ∀ u, ((g'.settle t .done outcome).tasks u).queue = (g'.tasks u).queue := by
      intro u
      by_cases hu : u = t
      · simp [KeyedGate.settle, KeyedGate.setTask, hu]
      · simp [KeyedGate.settle, KeyedGate.setTask, hu]
    have hinv : KeyedInv (g'.settle t .done outcome) := by
      refine ⟨⟨h.toKeyedSound.moves hmoves', fun q => ?_, ?_, fun u => ?_, hopens, hwaiting, hclosing⟩,
        hshut⟩
      · refine (hawake' q).imp id (Or.imp id ?_)
        rintro ⟨u, hu, hq⟩
        exact ⟨u, hu, (hself u).trans hq⟩
      · change (releasingTasks g'.stack).Nodup
        rw [hdrains.stack]
        exact hnodup
      · change u ∈ releasingTasks g'.stack ↔ u < g'.nextTask ∧ _
        rw [hdrains.stack, hdrains.nextTask]
        by_cases hu : u = t
        · subst hu
          simp [KeyedGate.settle, KeyedGate.setTask, hnot]
        · have hold := hiff u
          rw [List.mem_cons, or_iff_right hu] at hold
          have htask : (g'.settle t .done outcome).tasks u = g'.tasks u := by
            simp [KeyedGate.settle, KeyedGate.setTask, hu]
          rw [htask, hdrains.releasing]
          exact hold
    obtain ⟨hrest, hinv'⟩ := hinv.resume
    exact ⟨hmoves'.trans hrest, hinv'⟩
  · exact ⟨KeyedMoves.refl g, h⟩

end Hooks

/-! ## 5. The event loop -/

section Events

variable {g : KeyedGate} {t : ℕ}

theorem KeyedInv.callTask (h : KeyedInv g) : KeyedMoves g g.callTask ∧ KeyedInv g.callTask := by
  have hmoves := h.toKeyedSound.callTask
  refine ⟨hmoves, ?_⟩
  unfold KeyedGate.callTask at hmoves ⊢
  split at hmoves
  swap
  · exact h
  rename_i t rest hstack himmediates
  obtain ⟨-, hphase, -⟩ := h.first_immediate himmediates
  refine h.quiet ⟨hmoves, rfl, rfl, rfl, fun _ => ⟨rfl, rfl, rfl⟩, fun u => ?_, fun u => ?_⟩
  · by_cases hu : u = t <;> simp [KeyedGate.setTask, hu]
  · by_cases hu : u = t
    · simp [KeyedGate.setTask, hu, hphase]
    · simp [KeyedGate.setTask, hu]

theorem KeyedInv.taskSettles (h : KeyedInv g) (t : ℕ) (result : TaskResult) :
    KeyedMoves g (g.taskSettles t result) ∧ KeyedInv (g.taskSettles t result) := by
  unfold KeyedGate.taskSettles
  by_cases hready : g.stack = [] ∧ t < g.nextTask ∧ (g.tasks t).phase = .running
  swap
  · rw [if_neg hready]
    exact ⟨KeyedMoves.refl g, h⟩
  rw [if_pos hready]
  obtain ⟨-, ht, hphase⟩ := hready
  have hput : g.move t (.cleaning result) = g.put t { g.tasks t with phase := .cleaning result }
      { g.heap (g.tasks t).queue with inFlight := (g.heap (g.tasks t).queue).inFlight }
      g.immediates g.stack := by
    simp [KeyedGate.move, KeyedGate.put, KeyedGate.setTask, KeyedGate.setQueue]
  have hsettled := h.settled t ht
  rw [hphase] at hsettled
  have hmove : KeyedMove g (g.move t (.cleaning result)) := by
    rw [hput]
    exact h.proceed ht (by rw [hphase]; rfl) (by rw [hphase]; rfl) _ _ _ rfl rfl rfl rfl
      (fun _ => by rw [hphase]; rfl) hsettled (by rw [hphase]; rfl)
  refine ⟨.of hmove, h.quiet ⟨.of hmove, rfl, rfl, rfl, fun _ => ⟨rfl, rfl, rfl⟩, fun u => ?_,
    fun u => ?_⟩⟩
  · by_cases hu : u = t <;> simp [KeyedGate.move, KeyedGate.setTask, hu]
  · by_cases hu : u = t
    · simp [KeyedGate.move, KeyedGate.setTask, hu, hphase]
    · simp [KeyedGate.move, KeyedGate.setTask, hu]

/-- **The slot is given back**, and `onRelease` runs. -/
theorem KeyedInv.beforeReleaseSettles (h : KeyedInv g) (t : ℕ) (hookThrew : Bool) :
    KeyedMoves g (g.beforeReleaseSettles t hookThrew) ∧
      KeyedInv (g.beforeReleaseSettles t hookThrew) := by
  unfold KeyedGate.beforeReleaseSettles
  split
  swap
  · exact ⟨KeyedMoves.refl g, h⟩
  rename_i result hstack hphase
  by_cases ht : t < g.nextTask
  swap
  · rw [if_neg ht]
    exact ⟨KeyedMoves.refl g, h⟩
  rw [if_pos ht]
  dsimp only
  generalize houtcome : runBeforeRelease result hookThrew = outcome
  have hput : ({ (g.setQueue (g.tasks t).queue { g.heap (g.tasks t).queue with
      inFlight := (g.heap (g.tasks t).queue).inFlight - 1 }).move t .releasing with
      stack := [.releaseHook t outcome] } : KeyedGate) =
      g.put t { g.tasks t with phase := .releasing } { g.heap (g.tasks t).queue with
        inFlight := (g.heap (g.tasks t).queue).inFlight - 1 } g.immediates
        [.releaseHook t outcome] := by
    simp [KeyedGate.move, KeyedGate.put, KeyedGate.setTask, KeyedGate.setQueue]
  rw [hput]
  have hpos : 0 < (g.heap (g.tasks t).queue).inFlight := by
    rw [h.inFlight]
    exact Finset.card_pos.mpr ⟨t, mem_queueHolders.mpr ⟨ht, rfl, by rw [hphase]; rfl⟩⟩
  have hsettled := h.settled t ht
  rw [hphase] at hsettled
  have hcount : (g.heap (g.tasks t).queue).inFlight - 1 +
      (if (g.tasks t).phase.holds = true then 1 else 0) =
      (g.heap (g.tasks t).queue).inFlight + if TaskPhase.releasing.holds = true then 1 else 0 := by
    rw [hphase]
    change _ - 1 + 1 = _ + 0
    omega
  have hmove := h.proceed ht (by rw [hphase]; rfl) (by rw [hphase]; rfl)
    { g.tasks t with phase := .releasing } ((g.heap (g.tasks t).queue).inFlight - 1)
    [.releaseHook t outcome] rfl rfl rfl rfl (by simp) hsettled hcount
  have hnone : ∀ u, u ∉ releasingTasks g.stack := by
    rw [hstack]
    exact fun u => List.not_mem_nil
  have hqueue : ∀ u, ((g.put t { g.tasks t with phase := .releasing } { g.heap (g.tasks t).queue with
      inFlight := (g.heap (g.tasks t).queue).inFlight - 1 } g.immediates
      [.releaseHook t outcome]).tasks u).queue = (g.tasks u).queue := by
    intro u
    by_cases hu : u = t
    · rw [hu, keyedPut_tasks_self]
    · rw [keyedPut_tasks_of_ne hu]
  have hheap : ∀ q, ((g.put t { g.tasks t with phase := .releasing } { g.heap (g.tasks t).queue with
      inFlight := (g.heap (g.tasks t).queue).inFlight - 1 } g.immediates
      [.releaseHook t outcome]).heap q).pending = (g.heap q).pending ∧
      ((g.put t { g.tasks t with phase := .releasing } { g.heap (g.tasks t).queue with
      inFlight := (g.heap (g.tasks t).queue).inFlight - 1 } g.immediates
      [.releaseHook t outcome]).heap q).closed = (g.heap q).closed := by
    intro q
    by_cases hq : q = (g.tasks t).queue
    · simp [KeyedGate.put, KeyedGate.setTask, KeyedGate.setQueue, hq]
    · simp [KeyedGate.put, KeyedGate.setTask, KeyedGate.setQueue, hq]
  refine ⟨.of hmove, ⟨h.toKeyedSound.move hmove, fun q => ?_, List.nodup_singleton _, fun u => ?_,
    fun hopen q => ?_, fun u hu => ?_, fun _ _ _ hmem => ?_⟩, fun hclosed q u hu => ?_⟩
  · by_cases hq : q = (g.tasks t).queue
    · exact Or.inr (Or.inr ⟨t, List.mem_singleton_self t, (hqueue t).trans hq.symm⟩)
    · rw [(hheap q).2]
      refine (h.awake q).imp id (Or.imp (fun hold => ?_) ?_)
      · refine hold.mono rfl ?_ fun u hu => (hheap q).1 ▸ hu
        simp [KeyedGate.put, KeyedGate.setTask, KeyedGate.setQueue, hq]
      · rintro ⟨u, hu, -⟩
        exact absurd hu (hnone u)
  · change u ∈ [t] ↔ u < g.nextTask ∧ _
    by_cases hu : u = t
    · subst hu
      rw [keyedPut_tasks_self]
      exact ⟨fun _ => ⟨ht, rfl⟩, fun _ => List.mem_singleton_self u⟩
    · rw [keyedPut_tasks_of_ne hu, ← h.releasing u]
      exact ⟨fun hmem => absurd (List.mem_singleton.mp hmem) hu, fun hmem => absurd hmem (hnone u)⟩
  · rw [(hheap q).2]
    exact h.opens hopen q
  · cases hu
  · simp [KeyedGate.put] at hmem
  · rw [(hheap q).1] at hu
    have hold := h.shut hclosed q u hu
    rw [hstack] at hold
    rcases hold with ⟨-, hnot⟩ | hnot
    · cases hnot
    · cases hnot

theorem KeyedInv.cleanupMicrotask (h : KeyedInv g) (key : String) (q : ℕ) :
    KeyedMoves g (g.cleanupMicrotask key q) ∧ KeyedInv (g.cleanupMicrotask key q) := by
  have hmoves := h.toKeyedSound.cleanupMicrotask key q
  refine ⟨hmoves, h.quiet ⟨hmoves, ?_, ?_, ?_, fun _ => ?_, fun _ => ?_, fun _ => ?_⟩⟩ <;>
    unfold KeyedGate.cleanupMicrotask <;> split_ifs <;> simp

theorem KeyedInv.cancels (h : KeyedInv g) (ht : t < g.nextTask) (outcome : GateOutcome) :
    KeyedMoves g (g.cancelTask t outcome).1 ∧ KeyedInv (g.cancelTask t outcome).1 :=
  ⟨h.toKeyedSound.cancelTask ht outcome, h.cancelTask ht outcome⟩

theorem KeyedInv.abort (h : KeyedInv g) (t : ℕ) : KeyedMoves g (g.abort t) ∧ KeyedInv (g.abort t) := by
  unfold KeyedGate.abort
  split_ifs with ht
  · exact h.cancels ht.1 _
  · exact ⟨KeyedMoves.refl g, h⟩

theorem KeyedInv.timeout (h : KeyedInv g) (t : ℕ) :
    KeyedMoves g (g.timeout t) ∧ KeyedInv (g.timeout t) := by
  unfold KeyedGate.timeout
  split
  · split_ifs with ht
    · exact h.cancels ht.1 _
    · exact ⟨KeyedMoves.refl g, h⟩
  · exact ⟨KeyedMoves.refl g, h⟩

/-- **`close`.**  Every task that waits belongs to a queue of the map. -/
theorem KeyedInv.close (h : KeyedInv g) (reason : String) :
    KeyedMoves g (g.close reason) ∧ KeyedInv (g.close reason) := by
  unfold KeyedGate.close
  by_cases hclosed : g.closed = true
  · rw [if_pos hclosed]
    exact ⟨KeyedMoves.refl g, h⟩
  rw [if_neg hclosed]
  have hopen : g.closed = false := by simpa using hclosed
  have hmove : KeyedMove g { g with closed := true } :=
    h.aside rfl rfl rfl rfl (fun _ => ⟨rfl, rfl⟩) rfl rfl
  have hcore : KeyedCore { g with closed := true } :=
    ⟨h.toKeyedSound.move hmove, h.awake, h.releasing_nodup, h.releasing, (fun hno => by cases hno),
      h.waiting, fun _ _ _ _ => rfl⟩
  have hspec := keyedContinueClose_spec reason (g.queues.map Prod.snd) [] hcore rfl
    (fun q t ht => by
      obtain ⟨hlt, hq, hphase⟩ := (h.mem_pending q t).mp ht
      obtain ⟨-, hlookup⟩ := h.live t hlt (by rw [hphase]; rfl)
      have hmem : q ∈ g.queues.map Prod.snd :=
        List.mem_map.mpr ⟨_, mem_of_lookup hlookup, hq⟩
      exact Or.inl ⟨h.opens hopen q, Or.inl hmem⟩) (by simp)
  exact ⟨(KeyedMoves.of hmove).trans hspec.1, hspec.2⟩

/-! ## 6. Calls -/

theorem addTask_eq_keyedWithTask (task : WorkTask) :
    g.addTask task = g.withTask task (g.heap task.queue).pending g.stack := by
  simp [KeyedGate.addTask, KeyedGate.withTask, KeyedGate.setTask, KeyedGate.setQueue]

/-- A new task that does not wait. -/
theorem KeyedInv.withTask (h : KeyedInv g) {task : WorkTask} {stack : List WorkFrame}
    (hadded : WorkAdded g task (g.heap task.queue).pending)
    (hstack : stack = g.stack ∨ ∃ t, stack = .cancelHook t :: g.stack) :
    KeyedMoves g (g.withTask task (g.heap task.queue).pending stack) ∧
      KeyedInv (g.withTask task (g.heap task.queue).pending stack) := by
  have hmove := KeyedMove.added stack hadded
  have hheap : ∀ q, (g.withTask task (g.heap task.queue).pending stack).heap q = g.heap q := by
    intro q
    simp [KeyedGate.withTask, KeyedGate.setQueue]
  obtain ⟨-, -, -, hfresh⟩ := phase_of_not_started hadded.fresh
  have hreleasing : releasingTasks stack = releasingTasks g.stack := by
    rcases hstack with rfl | ⟨t, rfl⟩ <;> rfl
  have hcancel : tasksToCancel stack = tasksToCancel g.stack := by
    rcases hstack with rfl | ⟨t, rfl⟩ <;> rfl
  have hclose : queuesToClose stack = queuesToClose g.stack := by
    rcases hstack with rfl | ⟨t, rfl⟩ <;> rfl
  refine ⟨.of hmove, ⟨h.toKeyedSound.move hmove, fun q => ?_, ?_, fun u => ?_, fun hopen q => ?_,
    fun u hu => ?_, fun pending queues reason hmem => ?_⟩, fun hclosed q u hu => ?_⟩
  · rw [hheap q]
    refine (h.awake q).imp id (Or.imp (fun hold => ?_) ?_)
    · exact hold.mono rfl (by rw [hheap]) fun u hu => hheap q ▸ hu
    · rintro ⟨u, hu, hq⟩
      refine ⟨u, hreleasing.symm ▸ hu, ?_⟩
      rw [withTask_of_lt ((h.releasing u).mp hu).1]
      exact hq
  · change (releasingTasks stack).Nodup
    rw [hreleasing]
    exact h.releasing_nodup
  · change u ∈ releasingTasks stack ↔ _
    rw [hreleasing, h.releasing u]
    constructor
    · rintro ⟨hlt, hphase⟩
      rw [withTask_of_lt hlt]
      exact ⟨hlt.trans (Nat.lt_succ_self _), hphase⟩
    · rintro ⟨hlt, hphase⟩
      rcases lt_withTask hlt with hlt' | rfl
      · rw [withTask_of_lt hlt'] at hphase
        exact ⟨hlt', hphase⟩
      · rw [withTask_self] at hphase
        exact absurd hphase hfresh
  · rw [hheap q]
    exact h.opens hopen q
  · change u ∈ tasksToCancel stack at hu
    exact (h.waiting u (hcancel ▸ hu)).trans (Nat.lt_succ_self _)
  · change WorkFrame.closing pending queues reason ∈ stack at hmem
    refine h.closing pending queues reason ?_
    rcases hstack with rfl | ⟨t, rfl⟩
    · exact hmem
    · exact (List.mem_cons.mp hmem).resolve_left (by simp)
  · rw [hheap q] at hu ⊢
    change _ ∧ q ∈ queuesToClose stack ∨ u ∈ tasksToCancel stack
    rw [hcancel, hclose]
    exact h.shut hclosed q u hu

theorem KeyedInv.refuse (h : KeyedInv g) (call : WorkCall) :
    KeyedMoves g (g.refuse call) ∧ KeyedInv (g.refuse call) := by
  unfold KeyedGate.refuse
  rw [addTask_eq_keyedWithTask]
  exact h.withTask ⟨rfl, rfl, rfl, (fun hno => by cases hno), by simp⟩ (Or.inl rfl)

/-- A task whose signal is aborted already: it is in no queue, and its promise is rejected. -/
theorem KeyedInv.runAborted (h : KeyedInv g) (task : WorkTask) (hphase : task.phase = .queued)
    (hstarts : task.starts = 0) (hsettled : task.settled = []) :
    KeyedMoves g ((g.addTask task).cancelTask g.nextTask .aborted).1 ∧
      KeyedInv ((g.addTask task).cancelTask g.nextTask .aborted).1 := by
  have hself : (g.addTask task).tasks g.nextTask = task := by
    simp [KeyedGate.addTask, KeyedGate.setTask]
  have hpending : (g.heap task.queue).pending.filter (· != g.nextTask) =
      (g.heap task.queue).pending := by
    refine List.filter_eq_self.mpr fun u hu => ?_
    simp only [bne_iff_ne, ne_eq]
    rintro rfl
    exact lt_irrefl _ ((h.mem_pending _ _).mp hu).1
  have hcancelled : ((g.addTask task).cancelTask g.nextTask .aborted).1 =
      g.withTask { task with phase := .cancelled, settled := task.settled ++ [.aborted] }
        (g.heap task.queue).pending (.cancelHook g.nextTask :: g.stack) := by
    rw [cancelTask_queued (by rw [hself, hphase]), hself]
    simp [KeyedGate.addTask, KeyedGate.withTask, KeyedGate.put, KeyedGate.setTask,
      KeyedGate.setQueue, hpending]
  rw [hcancelled]
  exact h.withTask ⟨rfl, hstarts, by rw [hsettled]; rfl, (fun hno => by cases hno), by simp⟩
    (Or.inr ⟨_, rfl⟩)

/-- **A task joins the end of its queue**, which is drained. -/
theorem KeyedInv.runPushed (h : KeyedInv g) (hopen : g.closed = false) (task : WorkTask)
    (hphase : task.phase = .queued) (hstarts : task.starts = 0) (hsettled : task.settled = [])
    (hqueue : task.queue < g.nextQueue) (hkey : g.queues.lookup task.key = some task.queue) :
    KeyedMoves g (((g.addTask task).push task.queue g.nextTask).drain task.queue) ∧
      KeyedInv (((g.addTask task).push task.queue g.nextTask).drain task.queue) ∧
      (((g.addTask task).push task.queue g.nextTask).drain task.queue).nextTask = g.nextTask + 1 := by
  have hjoined : (g.addTask task).push task.queue g.nextTask =
      g.withTask task ((g.heap task.queue).pending ++ [g.nextTask]) g.stack := by
    simp [KeyedGate.push, KeyedGate.addTask, KeyedGate.withTask, KeyedGate.setTask,
      KeyedGate.setQueue]
  rw [hjoined]
  have hmove : KeyedMove g
      (g.withTask task ((g.heap task.queue).pending ++ [g.nextTask]) g.stack) :=
    .added _ ⟨by rw [hphase]; rfl, hstarts, by rw [hsettled, hphase]; rfl, fun _ => ⟨hqueue, hkey⟩,
      by rw [if_pos hphase]⟩
  have hself : (g.withTask task ((g.heap task.queue).pending ++ [g.nextTask]) g.stack).tasks
      g.nextTask = task := withTask_self
  have hold : ∀ u < g.nextTask, (g.withTask task ((g.heap task.queue).pending ++ [g.nextTask])
      g.stack).tasks u = g.tasks u := fun u => withTask_of_lt
  have hheap : ∀ q, q ≠ task.queue → (g.withTask task ((g.heap task.queue).pending ++ [g.nextTask])
      g.stack).heap q = g.heap q := fun q => withTask_pending_of_ne
  have hflag : ((g.withTask task ((g.heap task.queue).pending ++ [g.nextTask])
      g.stack).heap task.queue).closed = (g.heap task.queue).closed := by
    rw [withTask_pending_self]
  have hfields : ∀ pending, (g.withTask task pending g.stack).closed = g.closed ∧
      (g.withTask task pending g.stack).stack = g.stack ∧
      (g.withTask task pending g.stack).limit = g.limit ∧
      (g.withTask task pending g.stack).nextTask = g.nextTask + 1 := fun _ => ⟨rfl, rfl, rfl, rfl⟩
  obtain ⟨hclosed', hstack', hlimit', hnext'⟩ := hfields ((g.heap task.queue).pending ++ [g.nextTask])
  generalize g.withTask task ((g.heap task.queue).pending ++ [g.nextTask]) g.stack = joined at *
  obtain ⟨hdrains, hawake⟩ := keyedDrain_spec (h.toKeyedSound.move hmove) task.queue
  have hmoves := (KeyedMoves.of hmove).trans hdrains.moves
  have hflags : ∀ q, ((joined.drain task.queue).heap q).closed = (g.heap q).closed := by
    intro q
    by_cases hq : q = task.queue
    · rw [hq, hdrains.shut, hflag]
    · rw [hdrains.heap q hq, hheap q hq]
  refine ⟨hmoves, ⟨⟨h.toKeyedSound.moves hmoves, fun q => ?_, ?_, fun u => ?_, fun _ q => ?_,
    fun u hu => ?_, fun pending queues reason hmem => ?_⟩, fun hclosed => ?_⟩,
    hdrains.nextTask.trans hnext'⟩
  · rw [hflags]
    by_cases hq : q = task.queue
    · rw [hq, ← hflag]
      exact hawake.imp id Or.inl
    · refine (h.awake q).imp id (Or.imp (fun hawake' => ?_) ?_)
      · refine hawake'.mono (hdrains.moves.limit.trans hlimit') ?_ fun u hu => ?_
        · rw [hdrains.heap q hq, hheap q hq]
        · rw [hdrains.heap q hq, hheap q hq] at hu
          exact hu
      · rintro ⟨u, hu, huq⟩
        rw [hdrains.stack, hstack']
        refine ⟨u, hu, ?_⟩
        rw [hdrains.queue, hold u ((h.releasing u).mp hu).1]
        exact huq
  · rw [hdrains.stack, hstack']
    exact h.releasing_nodup
  · rw [hdrains.stack, hstack', hdrains.nextTask, hnext', hdrains.releasing, h.releasing u]
    constructor
    · rintro ⟨hlt, hreleasing⟩
      rw [hold u hlt]
      exact ⟨hlt.trans (Nat.lt_succ_self _), hreleasing⟩
    · rintro ⟨hlt, hreleasing⟩
      have hne : u ≠ g.nextTask := by
        rintro rfl
        rw [hself, hphase] at hreleasing
        cases hreleasing
      have hlt' : u < g.nextTask := by omega
      rw [hold u hlt'] at hreleasing
      exact ⟨hlt', hreleasing⟩
  · rw [hflags]
    exact h.opens hopen q
  · rw [hdrains.stack, hstack'] at hu
    rw [hdrains.nextTask, hnext']
    exact (h.waiting u hu).trans (Nat.lt_succ_self _)
  · rw [hdrains.stack, hstack'] at hmem
    rw [hdrains.closed, hclosed']
    exact h.closing pending queues reason hmem
  · rw [hdrains.closed, hclosed', hopen] at hclosed
    cases hclosed

/-- The queue of a key, in an open gate. -/
theorem KeyedInv.queueFor (h : KeyedInv g) (hopen : g.closed = false) (key : String) :
    KeyedInv (g.queueFor key).1 ∧ (g.queueFor key).1.closed = false := by
  obtain ⟨hmove, -, -⟩ := h.toKeyedSound.queueFor key
  have hheap : ∀ q, ((g.queueFor key).1.heap q).closed = (g.heap q).closed := by
    intro q
    unfold KeyedGate.queueFor
    split
    · rfl
    · by_cases hq : q = g.nextQueue
      · rw [hq, h.opens hopen]
        simp [KeyedGate.setQueue]
      · simp [KeyedGate.setQueue, hq]
  have hsame : ∀ q, ((g.queueFor key).1.heap q).pending = (g.heap q).pending ∧
      ((g.queueFor key).1.heap q).inFlight = (g.heap q).inFlight := by
    intro q
    unfold KeyedGate.queueFor
    split
    · exact ⟨rfl, rfl⟩
    · by_cases hq : q = g.nextQueue
      · obtain ⟨hpending, hinFlight⟩ := h.unused hq.ge
        rw [hpending, hinFlight]
        simp [KeyedGate.setQueue, hq]
      · simp [KeyedGate.setQueue, hq]
  have hfields : (g.queueFor key).1.stack = g.stack ∧ (g.queueFor key).1.closed = g.closed ∧
      (g.queueFor key).1.nextTask = g.nextTask ∧ (g.queueFor key).1.tasks = g.tasks := by
    unfold KeyedGate.queueFor
    split <;> exact ⟨rfl, rfl, rfl, rfl⟩
  obtain ⟨hstack, hclosed, hnext, htasks⟩ := hfields
  refine ⟨h.quiet ⟨.of hmove, hstack, hclosed, hnext, fun q => ⟨(hsame q).1, (hsame q).2, hheap q⟩,
    fun u => by rw [htasks], fun u => by rw [htasks]⟩, hclosed.trans hopen⟩

/-- **`run`.** -/
theorem KeyedInv.run (h : KeyedInv g) (call : WorkCall) :
    KeyedMoves g (g.run call) ∧ KeyedInv (g.run call) := by
  unfold KeyedGate.run
  cases hclosed : g.closed with
  | true =>
    rw [if_pos rfl]
    exact h.refuse call
  | false =>
    rw [if_neg (by simp)]
    obtain ⟨hmove, hbelow, hlookup⟩ := h.toKeyedSound.queueFor (normalizeGateKey call.key)
    obtain ⟨hfound, hopen⟩ := h.queueFor hclosed (normalizeGateKey call.key)
    generalize g.queueFor (normalizeGateKey call.key) = p at *
    obtain ⟨found, q⟩ := p
    dsimp only at hmove hbelow hlookup hfound hopen ⊢
    have hmoves := KeyedMoves.of hmove
    unfold KeyedGate.queueRun
    rw [if_neg (by simp [hfound.opens hopen q])]
    dsimp only
    obtain ⟨hpushed, hinv, hnext⟩ := hfound.runPushed hopen (found.newTask call q) rfl rfl rfl
      hbelow hlookup
    split_ifs
    · obtain ⟨haborted, hinv'⟩ := hfound.runAborted (found.newTask call q) rfl rfl rfl
      exact ⟨hmoves.trans haborted, hinv'⟩
    · obtain ⟨hcancelled, hinv'⟩ := hinv.cancels (t := found.nextTask) (by rw [hnext]; omega)
        (.timedOut 0)
      exact ⟨hmoves.trans (hpushed.trans hcancelled), hinv'⟩
    · exact ⟨hmoves.trans hpushed, hinv⟩

/-- **The step.**  Every event keeps the invariant, by changes in a row. -/
theorem KeyedInv.step (h : KeyedInv g) (event : WorkEvent) :
    KeyedMoves g (keyedGateStep g event) ∧ KeyedInv (keyedGateStep g event) := by
  cases event with
  | run call => exact h.run call
  | abort t => exact h.abort t
  | close reason => exact h.close reason
  | hookReturns => exact h.hookReturns
  | timeout t => exact h.timeout t
  | callTask => exact h.callTask
  | taskSettles t result => exact h.taskSettles t result
  | beforeReleaseSettles t hookThrew => exact h.beforeReleaseSettles t hookThrew
  | cleanupMicrotask key q => exact h.cleanupMicrotask key q

end Events

/-! ## 7. The slots of a key -/

/-- The tasks in flight whose keys normalize to one string. -/
def KeyedGate.inFlightOf (g : KeyedGate) (key : String) : Finset ℕ :=
  (Finset.range g.nextTask).filter (fun t => (g.tasks t).key = key ∧ (g.tasks t).phase.holds = true)

section Slots

variable {g : KeyedGate} {t : ℕ}

theorem mem_inFlightOf {key : String} : t ∈ g.inFlightOf key ↔
    t < g.nextTask ∧ (g.tasks t).key = key ∧ (g.tasks t).phase.holds = true := by
  simp [KeyedGate.inFlightOf]

/-- What is in flight for a key holds slots of one queue. -/
theorem KeyedSound.card_inFlightOf (h : KeyedSound g) (key : String) :
    (g.inFlightOf key).card ≤ g.limit := by
  rcases (g.inFlightOf key).eq_empty_or_nonempty with hempty | ⟨t, ht⟩
  · rw [hempty]
    exact Nat.zero_le _
  · obtain ⟨hlt, hkey, hholds⟩ := mem_inFlightOf.mp ht
    have hsub : g.inFlightOf key ⊆ g.holders (g.tasks t).queue := by
      intro u hu
      obtain ⟨hlt', hkey', hholds'⟩ := mem_inFlightOf.mp hu
      refine mem_queueHolders.mpr ⟨hlt', ?_, hholds'⟩
      exact h.one_queue hlt' hlt (isLive_of_holds hholds') (isLive_of_holds hholds)
        (hkey'.trans hkey.symm)
    have hcard := Finset.card_le_card hsub
    rw [← h.inFlight] at hcard
    exact hcard.trans (h.bounded _)

/-- Where no hook runs, a task waits only in an open gate, and every slot of its key is taken. -/
theorem KeyedInv.taken (h : KeyedInv g) (hstack : g.stack = []) (ht : t < g.nextTask)
    (hphase : (g.tasks t).phase = .queued) :
    g.closed = false ∧ (g.inFlightOf (g.tasks t).key).card = g.limit := by
  have hmem := (h.mem_pending (g.tasks t).queue t).mpr ⟨ht, rfl, hphase⟩
  have hopen : g.closed = false := by
    by_contra hnot
    have hshut := h.shut (by simpa using hnot) _ t hmem
    rw [hstack] at hshut
    rcases hshut with ⟨-, hno⟩ | hno
    · cases hno
    · cases hno
  refine ⟨hopen, le_antisymm (h.card_inFlightOf _) ?_⟩
  have hfull : g.limit ≤ (g.heap (g.tasks t).queue).inFlight := by
    rcases h.awake (g.tasks t).queue with hclosed | hawake | ⟨u, hu, -⟩
    · rw [h.opens hopen] at hclosed
      cases hclosed
    · refine hawake.resolve_left fun hempty => ?_
      rw [hempty] at hmem
      cases hmem
    · rw [hstack] at hu
      cases hu
  have hsub : g.holders (g.tasks t).queue ⊆ g.inFlightOf (g.tasks t).key := by
    intro u hu
    obtain ⟨hlt, hqueue, hholds⟩ := mem_queueHolders.mp hu
    exact mem_inFlightOf.mpr ⟨hlt, h.one_key hlt ht (isLive_of_holds hholds) (by rw [hphase]; rfl)
      hqueue, hholds⟩
  rw [h.inFlight] at hfull
  exact hfull.trans (Finset.card_le_card hsub)

end Slots

/-- A gate that has just been made. -/
theorem keyedInv_initial (name : String) (n : ℕ) :
    KeyedInv { name := name, maxConcurrency := n } := by
  have hnone : ∀ q, KeyedGate.holders { name := name, maxConcurrency := n } q = ∅ := by
    intro q
    simp [KeyedGate.holders]
  refine ⟨⟨⟨by simp, by simp, by simp, by simp, by simp, fun q => ?_, by simp, by simp, by simp,
    by simp, by simp, by simp, by simp⟩, fun q => Or.inr (Or.inl (Or.inl rfl)), List.nodup_nil, ?_,
    by simp, by simp [tasksToCancel], by simp⟩, by simp⟩
  · rw [hnone]
    rfl
  · simp [releasingTasks]

/-- The gate after a run. -/
theorem keyedInv_run {g : KeyedGate} (h : KeyedInv g) (events : List WorkEvent) :
    KeyedInv (Runs.run keyedGateStep g events) := by
  have hstep : ∀ s event, KeyedInv s → KeyedInv (keyedGateStep s event) :=
    fun _ event hinv => (hinv.step event).2
  exact Runs.run_invariant_of_forall hstep h

theorem keyedLater_run {g : KeyedGate} (h : KeyedInv g) (events : List WorkEvent) :
    KeyedLater g (Runs.run keyedGateStep g events) := by
  have hmeets : Runs.Meets keyedGateStep (fun _ _ => True) g events :=
    Runs.Meets.of_forall (fun _ _ => trivial) g events
  exact Runs.run_rel KeyedLater.refl (fun _ _ _ => KeyedLater.trans)
    (fun _ event hinv _ => (KeyedInv.step hinv event).2)
    (fun _ event hinv _ => (KeyedInv.step hinv event).1.later) h hmeets

/-- **The gate bounds concurrency and keeps order for each key.**  After every sequence of events,
from the calls, the hooks and the event loop, with `n` slots for a key: at most `n` tasks whose keys
normalize to one string are in flight; where a task has started, no earlier one of its key waits,
and where its function has been called, no earlier one that started is still to be called; a task
that was cancelled stays so and is never called; a function is called once at most and a promise
settled once at most, after which it stays, and no sooner than the task has given its slot back;
and at the end of an event a promise is settled unless the task is in flight or waits, in an open
gate, for one of `n` slots of its key that are all taken. -/
theorem keyed_gate_bounds (name : String) (n : ℕ) (hn : 1 ≤ n) (earlier later : List WorkEvent) :
    let before := Runs.run keyedGateStep { name := name, maxConcurrency := n } earlier
    let g := Runs.run keyedGateStep before later
    (∀ key, (g.inFlightOf key).card ≤ n) ∧
    (∀ u < g.nextTask, ∀ t < u, (g.tasks t).key = (g.tasks u).key →
      ((g.tasks u).phase.started = true → (g.tasks t).phase ≠ .queued) ∧
      ((g.tasks u).starts ≠ 0 → (g.tasks t).phase ≠ .queued ∧ (g.tasks t).phase ≠ .scheduled)) ∧
    (∀ t < before.nextTask, (before.tasks t).cancelled = true →
      (g.tasks t).cancelled = true ∧ (g.tasks t).starts = 0) ∧
    (∀ t < g.nextTask, (g.tasks t).starts ≤ 1 ∧ (g.tasks t).settled.length ≤ 1 ∧
      ((g.tasks t).settled ≠ [] → (g.tasks t).phase.holds = false)) ∧
    (∀ t < before.nextTask, (before.tasks t).settled ≠ [] → g.tasks t = before.tasks t) ∧
    (∀ q, (g.heap q).inFlight = (g.holders q).card) ∧
    (g.stack = [] → ∀ t < g.nextTask, (g.tasks t).settled.length = 1 ∨
      (g.tasks t).phase.holds = true ∨ (g.tasks t).phase = .queued) ∧
    (g.stack = [] → ∀ t < g.nextTask, (g.tasks t).phase = .queued →
      g.closed = false ∧ (g.inFlightOf (g.tasks t).key).card = n) := by
  intro before g
  have hbefore : KeyedInv before := keyedInv_run (keyedInv_initial name n) earlier
  have h : KeyedInv g := keyedInv_run hbefore later
  have hlater : KeyedLater before g := keyedLater_run hbefore later
  have hlimit : g.limit = n := by
    have hstart : KeyedLater { name := name, maxConcurrency := n } g :=
      (keyedLater_run (keyedInv_initial name n) earlier).trans hlater
    change max 1 g.maxConcurrency = n
    rw [hstart.limit]
    exact max_eq_right hn
  refine ⟨fun key => hlimit ▸ h.card_inFlightOf key, fun u hu t htu hkey => ⟨?_, fun hstarts => ?_⟩,
    fun t ht hcancelled => ?_, fun t ht => ⟨?_, ?_, fun hsettled => ?_⟩, fun t ht hsettled => ?_,
    h.inFlight, fun hstack t ht => ?_, fun hstack t ht hphase => hlimit ▸ h.taken hstack ht hphase⟩
  · exact h.started_order u hu t htu hkey
  · have hcalls : (g.tasks u).phase.calls = 1 := by
      have hsame := h.starts u hu
      cases hphase : (g.tasks u).phase <;> simp_all [TaskPhase.calls]
    exact ⟨h.started_order u hu t htu hkey (started_of_calls hcalls),
      h.called_order u hu t htu hkey hcalls⟩
  · have hphase : (before.tasks t).phase = .cancelled := by
      simpa [WorkTask.cancelled] using hcancelled
    have hkept := hlater.kept t ht (by rw [hphase]; rfl)
    rw [hkept, hbefore.starts t ht, hphase]
    exact ⟨hcancelled, rfl⟩
  · rw [h.starts t ht]
    cases (g.tasks t).phase <;> simp [TaskPhase.calls]
  · rw [h.settled t ht]
    cases (g.tasks t).phase <;> simp [TaskPhase.settlements]
  · have hlength := h.settled t ht
    cases hphase : (g.tasks t).phase <;>
      simp_all [TaskPhase.settlements, TaskPhase.holds]
  · refine hlater.kept t ht ?_
    rw [← hbefore.settled t ht]
    have hle : (before.tasks t).phase.settlements ≤ 1 := by
      cases (before.tasks t).phase <;> simp [TaskPhase.settlements]
    have hpos := List.length_pos_iff.mpr hsettled
    rw [hbefore.settled t ht] at hpos ⊢
    omega
  · rw [h.settled t ht]
    cases hphase : (g.tasks t).phase with
    | releasing =>
      have howed := (h.releasing t).mpr ⟨ht, hphase⟩
      rw [hstack] at howed
      cases howed
    | queued => exact Or.inr (Or.inr rfl)
    | scheduled => exact Or.inr (Or.inl rfl)
    | running => exact Or.inr (Or.inl rfl)
    | cleaning result => exact Or.inr (Or.inl rfl)
    | done => exact Or.inl rfl
    | cancelled => exact Or.inl rfl
    | refused => exact Or.inl rfl

/-- Two calls with keys that normalize to one string, in a gate of one slot: the second waits. -/
theorem keyed_gate_bounds_pair :
    let g := Runs.run keyedGateStep
      (Runs.run keyedGateStep { name := "locks", maxConcurrency := 1 } [])
      [.run { key := some "db" }, .run { key := some " db " }]
    (g.tasks 1).phase = .queued ∧ g.closed = false ∧ (g.inFlightOf "db").card = 1 := by
  intro g
  have hphase : (g.tasks 1).phase = .queued := by decide +kernel
  have hkey : (g.tasks 1).key = "db" := by decide +kernel
  obtain ⟨-, -, -, -, -, -, -, htaken⟩ := keyed_gate_bounds "locks" 1 le_rfl []
    [.run { key := some "db" }, .run { key := some " db " }]
  have hslot := htaken (by decide +kernel) 1 (by decide +kernel) hphase
  rw [← hkey]
  exact ⟨hphase, hslot⟩

end PosseClient
