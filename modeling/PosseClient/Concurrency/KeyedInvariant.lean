/-
# What the keyed gate keeps

A queue lists the tasks that wait for it in the order of their calls and counts those that hold a
slot; a task that waits or holds a slot belongs to the queue its key has in the map; and of two
tasks of a key the later one is neither started nor called before the earlier one.

* An event changes one task and its queue at a time, adds a task, or adds or drops a queue.
  `WorkMove` says once what such a change can be.
* What is kept is `KeyedSound`; what is settled stays as it is, which is `KeyedLater`.
-/
import PosseClient.Concurrency.KeyedGate
import PosseClient.Lib.Runs

namespace PosseClient

/-! ## 1. Phases -/

/-- `task.started`. -/
def TaskPhase.started : TaskPhase → Bool
  | .queued => false
  | .cancelled => false
  | .refused => false
  | _ => true

theorem started_of_calls {phase : TaskPhase} (h : phase.calls = 1) : phase.started = true := by
  cases phase <;> simp_all [TaskPhase.calls, TaskPhase.started]

/-- The tasks that hold a slot of a queue. -/
def KeyedGate.holders (g : KeyedGate) (q : ℕ) : Finset ℕ :=
  (Finset.range g.nextTask).filter (fun t => (g.tasks t).queue = q ∧ (g.tasks t).phase.holds = true)

theorem mem_queueHolders {g : KeyedGate} {q t : ℕ} :
    t ∈ g.holders q ↔ t < g.nextTask ∧ (g.tasks t).queue = q ∧ (g.tasks t).phase.holds = true := by
  simp [KeyedGate.holders]

/-- The objects of a gate agree with each other, and tasks of a key start and are called in the
order of their calls. -/
structure KeyedSound (g : KeyedGate) : Prop where
  below : ∀ p ∈ g.queues, p.2 < g.nextQueue
  distinct : (g.queues.map Prod.snd).Nodup
  live : ∀ t < g.nextTask, (g.tasks t).phase.isLive = true → (g.tasks t).queue < g.nextQueue ∧
    g.queues.lookup (g.tasks t).key = some (g.tasks t).queue
  sorted : ∀ q, (g.heap q).pending.Pairwise (· < ·)
  mem_pending : ∀ q t, t ∈ (g.heap q).pending ↔
    t < g.nextTask ∧ (g.tasks t).queue = q ∧ (g.tasks t).phase = .queued
  inFlight : ∀ q, (g.heap q).inFlight = (g.holders q).card
  bounded : ∀ q, (g.heap q).inFlight ≤ g.limit
  starts : ∀ t < g.nextTask, (g.tasks t).starts = (g.tasks t).phase.calls
  settled : ∀ t < g.nextTask, (g.tasks t).settled.length = (g.tasks t).phase.settlements
  mem_immediates : ∀ t, t ∈ g.immediates ↔ t < g.nextTask ∧ (g.tasks t).phase = .scheduled
  in_turn : g.immediates.Pairwise (fun t u => (g.tasks t).key = (g.tasks u).key → t < u)
  started_order : ∀ u < g.nextTask, ∀ t < u, (g.tasks t).key = (g.tasks u).key →
    (g.tasks u).phase.started = true → (g.tasks t).phase ≠ .queued
  called_order : ∀ u < g.nextTask, ∀ t < u, (g.tasks t).key = (g.tasks u).key →
    (g.tasks u).phase.calls = 1 → (g.tasks t).phase ≠ .scheduled

/-! ## 2. One task changes -/

/-- The gate with one task, its queue, the immediates and the stack changed. -/
def KeyedGate.put (g : KeyedGate) (t : ℕ) (task : WorkTask) (queue : WorkQueue)
    (immediates : List ℕ) (stack : List WorkFrame) : KeyedGate :=
  { (g.setQueue task.queue queue).setTask t task with immediates := immediates, stack := stack }

/-- A change of one task that does not wait afterwards; its queue and the immediates follow. -/
structure WorkChange (g : KeyedGate) (t : ℕ) (task : WorkTask) (queue : WorkQueue)
    (immediates : List ℕ) : Prop where
  bound : t < g.nextTask
  same_key : task.key = (g.tasks t).key
  same_queue : task.queue = (g.tasks t).queue
  unsettled : (g.tasks t).phase.settlements = 0
  leaves : task.phase ≠ .queued
  live : task.phase.isLive = true → (g.tasks t).phase.isLive = true
  starts : task.starts = task.phase.calls
  settled : task.settled.length = task.phase.settlements
  sorted : queue.pending.Pairwise (· < ·)
  mem_pending : ∀ u, u ∈ queue.pending ↔ u ∈ (g.heap task.queue).pending ∧ u ≠ t
  inFlight : queue.inFlight + (if (g.tasks t).phase.holds = true then 1 else 0) =
    (g.heap task.queue).inFlight + if task.phase.holds = true then 1 else 0
  bounded : queue.inFlight ≤ g.limit
  mem_immediates : ∀ u, u ∈ immediates ↔
    (u ∈ g.immediates ∧ u ≠ t) ∨ (u = t ∧ task.phase = .scheduled)
  in_turn : immediates.Pairwise (fun u v => (g.tasks u).key = (g.tasks v).key → u < v)
  scheduled : task.phase = .scheduled → (g.tasks t).phase = .queued
  starting : task.phase.started = true → (g.tasks t).phase.started = true ∨
    ∀ u < t, (g.tasks u).key = (g.tasks t).key → (g.tasks u).phase ≠ .queued
  calling : task.phase.calls = 1 → (g.tasks t).phase.calls = 1 ∨
    ∀ u < t, (g.tasks u).key = (g.tasks t).key → (g.tasks u).phase ≠ .scheduled

section Put

variable {g : KeyedGate} {t : ℕ} {task : WorkTask} {queue : WorkQueue} {immediates : List ℕ}
  {stack : List WorkFrame}

@[simp] theorem keyedPut_tasks_self : (g.put t task queue immediates stack).tasks t = task := by
  simp [KeyedGate.put, KeyedGate.setTask]

theorem keyedPut_tasks_of_ne {u : ℕ} (h : u ≠ t) :
    (g.put t task queue immediates stack).tasks u = g.tasks u := by
  simp [KeyedGate.put, KeyedGate.setTask, KeyedGate.setQueue, h]

@[simp] theorem keyedPut_heap_self :
    (g.put t task queue immediates stack).heap task.queue = queue := by
  simp [KeyedGate.put, KeyedGate.setTask, KeyedGate.setQueue]

theorem keyedPut_heap_of_ne {q : ℕ} (h : q ≠ task.queue) :
    (g.put t task queue immediates stack).heap q = g.heap q := by
  simp [KeyedGate.put, KeyedGate.setTask, KeyedGate.setQueue, h]

/-- How the number of holders of a queue moves. -/
theorem card_queueHolders_put (hbound : t < g.nextTask) (hqueue : task.queue = (g.tasks t).queue)
    (q : ℕ) :
    ((g.put t task queue immediates stack).holders q).card +
        (if task.queue = q ∧ (g.tasks t).phase.holds = true then 1 else 0) =
      (g.holders q).card + if task.queue = q ∧ task.phase.holds = true then 1 else 0 := by
  have herase : ((g.put t task queue immediates stack).holders q).erase t =
      (g.holders q).erase t := by
    ext u
    rw [Finset.mem_erase, Finset.mem_erase, mem_queueHolders, mem_queueHolders]
    refine and_congr_right fun hu => ?_
    rw [keyedPut_tasks_of_ne hu]
    rfl
  have hmem : t ∈ g.holders q ↔ task.queue = q ∧ (g.tasks t).phase.holds = true := by
    rw [mem_queueHolders, hqueue]
    exact and_iff_right hbound
  have hmem' : t ∈ (g.put t task queue immediates stack).holders q ↔
      task.queue = q ∧ task.phase.holds = true := by
    rw [mem_queueHolders, keyedPut_tasks_self]
    exact and_iff_right hbound
  have hcard := card_erase_add (g.holders q) t
  have hcard' := card_erase_add ((g.put t task queue immediates stack).holders q) t
  rw [if_congr hmem rfl rfl] at hcard
  rw [if_congr hmem' rfl rfl, herase] at hcard'
  omega

theorem WorkChange.keys (h : WorkChange g t task queue immediates) (u : ℕ) :
    ((g.put t task queue immediates stack).tasks u).key = (g.tasks u).key := by
  by_cases hu : u = t
  · rw [hu, keyedPut_tasks_self, h.same_key]
  · rw [keyedPut_tasks_of_ne hu]

/-- **One task changes.** -/
theorem KeyedSound.put (h : KeyedSound g) (hchange : WorkChange g t task queue immediates) :
    KeyedSound (g.put t task queue immediates stack) := by
  have hkey : ∀ u, ((g.put t task queue immediates stack).tasks u).key = (g.tasks u).key :=
    hchange.keys
  refine ⟨h.below, h.distinct, fun u hu hlive => ?_, fun q => ?_, fun q u => ?_, fun q => ?_, fun q => ?_,
    fun u hu => ?_, fun u hu => ?_, fun u => ?_, ?_, fun v hv u huv hsame => ?_,
    fun v hv u huv hsame => ?_⟩
  · rw [hkey]
    by_cases hut : u = t
    · subst hut
      rw [keyedPut_tasks_self] at hlive ⊢
      rw [hchange.same_queue]
      exact h.live u hu (hchange.live hlive)
    · rw [keyedPut_tasks_of_ne hut] at hlive ⊢
      exact h.live u hu hlive
  · by_cases hq : q = task.queue
    · rw [hq, keyedPut_heap_self]
      exact hchange.sorted
    · rw [keyedPut_heap_of_ne hq]
      exact h.sorted q
  · have hold := h.mem_pending q u
    by_cases hut : u = t
    · subst hut
      rw [keyedPut_tasks_self]
      refine ⟨fun hmem => ?_, fun hqueued => absurd hqueued.2.2 hchange.leaves⟩
      by_cases hq : q = task.queue
      · rw [hq, keyedPut_heap_self] at hmem
        exact absurd rfl ((hchange.mem_pending u).mp hmem).2
      · rw [keyedPut_heap_of_ne hq] at hmem
        exact absurd ((hold.mp hmem).2.1.symm.trans hchange.same_queue.symm) hq
    · rw [keyedPut_tasks_of_ne hut]
      refine Iff.trans ?_ hold
      by_cases hq : q = task.queue
      · rw [hq, keyedPut_heap_self, hchange.mem_pending]
        exact and_iff_left hut
      · rw [keyedPut_heap_of_ne hq]
  · have hmoved : ((g.put t task queue immediates stack).holders q).card + _ = _ :=
      card_queueHolders_put hchange.bound hchange.same_queue q
    have hold := h.inFlight q
    by_cases hq : task.queue = q
    · subst hq
      rw [keyedPut_heap_self]
      have hbalance := hchange.inFlight
      simp only [true_and] at hmoved
      omega
    · rw [keyedPut_heap_of_ne (Ne.symm hq)]
      simp only [hq, false_and, if_false] at hmoved
      omega
  · by_cases hq : q = task.queue
    · rw [hq, keyedPut_heap_self]
      exact hchange.bounded
    · rw [keyedPut_heap_of_ne hq]
      exact h.bounded q
  · by_cases hut : u = t
    · rw [hut, keyedPut_tasks_self]
      exact hchange.starts
    · rw [keyedPut_tasks_of_ne hut]
      exact h.starts u hu
  · by_cases hut : u = t
    · rw [hut, keyedPut_tasks_self]
      exact hchange.settled
    · rw [keyedPut_tasks_of_ne hut]
      exact h.settled u hu
  · refine (hchange.mem_immediates u).trans ?_
    by_cases hut : u = t
    · subst hut
      rw [keyedPut_tasks_self]
      have hbound := hchange.bound
      constructor
      · rintro (⟨-, hne⟩ | ⟨-, hphase⟩)
        · exact absurd rfl hne
        · exact ⟨hbound, hphase⟩
      · rintro ⟨-, hphase⟩
        exact Or.inr ⟨rfl, hphase⟩
    · rw [keyedPut_tasks_of_ne hut]
      simp only [hut, ne_eq, not_false_iff, and_true, false_and, or_false]
      exact h.mem_immediates u
  · refine hchange.in_turn.imp fun hlt => ?_
    rw [hkey, hkey]
    exact hlt
  · -- the later task of the two has started
    rw [hkey, hkey] at hsame
    intro hstarted hqueued
    by_cases hut : u = t
    · rw [hut, keyedPut_tasks_self] at hqueued
      exact hchange.leaves hqueued
    rw [keyedPut_tasks_of_ne hut] at hqueued
    by_cases hvt : v = t
    · subst hvt
      rw [keyedPut_tasks_self] at hstarted
      rcases hchange.starting hstarted with hbefore | hfirst
      · exact h.started_order v hv u huv hsame hbefore hqueued
      · exact hfirst u huv hsame hqueued
    · rw [keyedPut_tasks_of_ne hvt] at hstarted
      exact h.started_order v hv u huv hsame hstarted hqueued
  · rw [hkey, hkey] at hsame
    intro hcalls hscheduled
    by_cases hut : u = t
    · -- it has just started, before a later one that was called
      subst hut
      rw [keyedPut_tasks_self] at hscheduled
      rw [keyedPut_tasks_of_ne huv.ne'] at hcalls
      exact h.started_order v hv u huv hsame (started_of_calls hcalls)
        (hchange.scheduled hscheduled)
    rw [keyedPut_tasks_of_ne hut] at hscheduled
    by_cases hvt : v = t
    · subst hvt
      rw [keyedPut_tasks_self] at hcalls
      rcases hchange.calling hcalls with hbefore | hfirst
      · exact h.called_order v hv u huv hsame hbefore hscheduled
      · exact hfirst u huv hsame hscheduled
    · rw [keyedPut_tasks_of_ne hvt] at hcalls
      exact h.called_order v hv u huv hsame hcalls hscheduled

end Put

/-! ## 3. A task more, a queue more or less -/

/-- The gate with one task more, and what then waits for its queue. -/
def KeyedGate.withTask (g : KeyedGate) (task : WorkTask) (pending : List ℕ)
    (stack : List WorkFrame) : KeyedGate :=
  { g.setQueue task.queue { g.heap task.queue with pending := pending } with
    tasks := Function.update g.tasks g.nextTask task, nextTask := g.nextTask + 1, stack := stack }

/-- A new task, which waits at the end of its queue or not at all. -/
structure WorkAdded (g : KeyedGate) (task : WorkTask) (pending : List ℕ) : Prop where
  fresh : task.phase.started = false
  starts : task.starts = 0
  settled : task.settled.length = task.phase.settlements
  queued : task.phase = .queued → task.queue < g.nextQueue ∧
    g.queues.lookup task.key = some task.queue
  pending : pending = (g.heap task.queue).pending ++
    if task.phase = .queued then [g.nextTask] else []

theorem phase_of_not_started {phase : TaskPhase} (h : phase.started = false) :
    phase.holds = false ∧ phase.calls = 0 ∧ phase ≠ .scheduled ∧ phase ≠ .releasing := by
  cases phase <;> simp_all [TaskPhase.started, TaskPhase.holds, TaskPhase.calls]

section Added

variable {g : KeyedGate} {task : WorkTask} {pending : List ℕ} {stack : List WorkFrame}

@[simp] theorem withTask_self : (g.withTask task pending stack).tasks g.nextTask = task := by
  simp [KeyedGate.withTask]

theorem withTask_of_lt {t : ℕ} (h : t < g.nextTask) :
    (g.withTask task pending stack).tasks t = g.tasks t := by
  simp [KeyedGate.withTask, h.ne]

theorem lt_withTask {t : ℕ} (h : t < (g.withTask task pending stack).nextTask) :
    t < g.nextTask ∨ t = g.nextTask := by
  change t < g.nextTask + 1 at h
  omega

theorem withTask_inFlight (q : ℕ) :
    ((g.withTask task pending stack).heap q).inFlight = (g.heap q).inFlight := by
  by_cases hq : q = task.queue
  · subst hq
    simp [KeyedGate.withTask, KeyedGate.setQueue]
  · simp [KeyedGate.withTask, KeyedGate.setQueue, hq]

theorem withTask_pending_of_ne {q : ℕ} (h : q ≠ task.queue) :
    (g.withTask task pending stack).heap q = g.heap q := by
  simp [KeyedGate.withTask, KeyedGate.setQueue, h]

@[simp] theorem withTask_pending_self :
    (g.withTask task pending stack).heap task.queue =
      { g.heap task.queue with pending := pending } := by
  simp [KeyedGate.withTask, KeyedGate.setQueue]

/-- **One task more.** -/
theorem KeyedSound.withTask (h : KeyedSound g) (hadded : WorkAdded g task pending) :
    KeyedSound (g.withTask task pending stack) := by
  obtain ⟨hholds, hcalls, hscheduled, -⟩ := phase_of_not_started hadded.fresh
  have hnew : ∀ q, g.nextTask ∉ (g.heap q).pending := fun q hmem =>
    lt_irrefl _ ((h.mem_pending q _).mp hmem).1
  have hholders : ∀ q, (g.withTask task pending stack).holders q = g.holders q := by
    intro q
    ext u
    rw [mem_queueHolders, mem_queueHolders]
    constructor
    · rintro ⟨hu, hq, hu'⟩
      rcases lt_withTask hu with hlt | rfl
      · rw [withTask_of_lt hlt] at hq hu'
        exact ⟨hlt, hq, hu'⟩
      · rw [withTask_self, hholds] at hu'
        cases hu'
    · rintro ⟨hu, hq, hu'⟩
      rw [withTask_of_lt hu]
      exact ⟨hu.trans (Nat.lt_succ_self _), hq, hu'⟩
  refine ⟨h.below, h.distinct, fun u hu hlive => ?_, fun q => ?_, fun q u => ?_, fun q => ?_, fun q => ?_,
    fun u hu => ?_, fun u hu => ?_, fun u => ?_, ?_, fun v hv u huv hsame => ?_,
    fun v hv u huv hsame => ?_⟩
  · rcases lt_withTask hu with hlt | rfl
    · rw [withTask_of_lt hlt] at hlive ⊢
      exact h.live u hlt hlive
    · rw [withTask_self] at hlive ⊢
      rw [TaskPhase.isLive, hholds, Bool.or_false, beq_iff_eq] at hlive
      exact hadded.queued hlive
  · by_cases hq : q = task.queue
    · rw [hq, withTask_pending_self, hadded.pending]
      refine List.pairwise_append.mpr ⟨h.sorted _, ?_, fun a ha b hb => ?_⟩
      · split_ifs <;> simp
      · split_ifs at hb
        · rw [List.mem_singleton.mp hb]
          exact ((h.mem_pending _ a).mp ha).1
        · cases hb
    · rw [withTask_pending_of_ne hq]
      exact h.sorted q
  · have hold := h.mem_pending q u
    by_cases hu : u = g.nextTask
    · subst hu
      rw [withTask_self]
      by_cases hq : q = task.queue
      · subst hq
        rw [withTask_pending_self, hadded.pending, List.mem_append]
        constructor
        · rintro (hmem | hmem)
          · exact absurd hmem (hnew _)
          · split_ifs at hmem with hphase
            · exact ⟨Nat.lt_succ_self _, rfl, hphase⟩
            · cases hmem
        · rintro ⟨-, -, hphase⟩
          rw [if_pos hphase]
          exact Or.inr (List.mem_singleton_self _)
      · rw [withTask_pending_of_ne hq]
        refine ⟨fun hmem => absurd hmem (hnew q), ?_⟩
        rintro ⟨-, hsame, -⟩
        exact absurd hsame.symm hq
    · have hrest : u < (g.withTask task pending stack).nextTask ∧
          ((g.withTask task pending stack).tasks u).queue = q ∧
          ((g.withTask task pending stack).tasks u).phase = .queued ↔
          u < g.nextTask ∧ (g.tasks u).queue = q ∧ (g.tasks u).phase = .queued := by
        have hlt : u < (g.withTask task pending stack).nextTask ↔ u < g.nextTask := by
          change u < g.nextTask + 1 ↔ _
          omega
        have htask : (g.withTask task pending stack).tasks u = g.tasks u := by
          simp [KeyedGate.withTask, hu]
        rw [hlt, htask]
      rw [hrest, ← hold]
      by_cases hq : q = task.queue
      · subst hq
        rw [withTask_pending_self, hadded.pending, List.mem_append]
        refine ⟨fun hmem => hmem.resolve_right fun hlast => ?_, Or.inl⟩
        split_ifs at hlast
        · exact hu (List.mem_singleton.mp hlast)
        · cases hlast
      · rw [withTask_pending_of_ne hq]
  · rw [withTask_inFlight, hholders]
    exact h.inFlight q
  · rw [withTask_inFlight]
    exact h.bounded q
  · rcases lt_withTask hu with hlt | rfl
    · rw [withTask_of_lt hlt]
      exact h.starts u hlt
    · rw [withTask_self, hadded.starts, hcalls]
  · rcases lt_withTask hu with hlt | rfl
    · rw [withTask_of_lt hlt]
      exact h.settled u hlt
    · rw [withTask_self]
      exact hadded.settled
  · refine (h.mem_immediates u).trans ⟨?_, ?_⟩
    · rintro ⟨hlt, hphase⟩
      rw [withTask_of_lt hlt]
      exact ⟨hlt.trans (Nat.lt_succ_self _), hphase⟩
    · rintro ⟨hlt, hphase⟩
      rcases lt_withTask hlt with hlt' | rfl
      · rw [withTask_of_lt hlt'] at hphase
        exact ⟨hlt', hphase⟩
      · rw [withTask_self] at hphase
        exact absurd hphase hscheduled
  · refine h.in_turn.imp_of_mem fun ha hb hlt => ?_
    rw [withTask_of_lt ((h.mem_immediates _).mp ha).1, withTask_of_lt ((h.mem_immediates _).mp hb).1]
    exact hlt
  · intro hstarted
    rcases lt_withTask hv with hlt | rfl
    · rw [withTask_of_lt hlt] at hsame hstarted
      rw [withTask_of_lt (huv.trans hlt)] at hsame ⊢
      exact h.started_order v hlt u huv hsame hstarted
    · rw [withTask_self, hadded.fresh] at hstarted
      cases hstarted
  · intro hcalled
    rcases lt_withTask hv with hlt | rfl
    · rw [withTask_of_lt hlt] at hsame hcalled
      rw [withTask_of_lt (huv.trans hlt)] at hsame ⊢
      exact h.called_order v hlt u huv hsame hcalled
    · rw [withTask_self, hcalls] at hcalled
      cases hcalled

end Added

/-- A change beside the tasks: of the stack, of what is closed, of the microtasks, or of the map
where no task that waits or holds a slot loses its queue. -/
structure WorkSame (g g' : KeyedGate) : Prop where
  limit : g'.maxConcurrency = g.maxConcurrency
  tasks : g'.tasks = g.tasks
  nextTask : g'.nextTask = g.nextTask
  immediates : g'.immediates = g.immediates
  heap : ∀ q, (g'.heap q).pending = (g.heap q).pending ∧ (g'.heap q).inFlight = (g.heap q).inFlight
  nextQueue : g.nextQueue ≤ g'.nextQueue
  below : ∀ p ∈ g'.queues, p.2 < g'.nextQueue
  distinct : (g'.queues.map Prod.snd).Nodup
  kept : ∀ t < g.nextTask, (g.tasks t).phase.isLive = true →
    g'.queues.lookup (g.tasks t).key = g.queues.lookup (g.tasks t).key

theorem KeyedSound.same {g g' : KeyedGate} (h : KeyedSound g) (hsame : WorkSame g g') :
    KeyedSound g' := by
  obtain ⟨name', maxConcurrency', closed', queues', heap', nextQueue', tasks', nextTask', stack',
    cleanups', immediates'⟩ := g'
  obtain ⟨hlimit, htasks, hnext, himmediates, hheap, hqueue, hbelow, hdistinct, hkept⟩ := hsame
  subst hlimit htasks hnext himmediates
  refine ⟨hbelow, hdistinct, fun t ht hlive => ?_, fun q => ?_, fun q t => ?_, fun q => ?_, fun q => ?_,
    h.starts, h.settled, h.mem_immediates, h.in_turn, h.started_order, h.called_order⟩
  · obtain ⟨hlt, hlookup⟩ := h.live t ht hlive
    exact ⟨hlt.trans_le hqueue, (hkept t ht hlive).trans hlookup⟩
  · rw [(hheap q).1]
    exact h.sorted q
  · rw [(hheap q).1]
    exact h.mem_pending q t
  · rw [(hheap q).2]
    exact h.inFlight q
  · rw [(hheap q).2]
    exact h.bounded q

/-! ## 4. Moves -/

/-- What a change of the gate can be. -/
inductive KeyedMove (g : KeyedGate) : KeyedGate → Prop
  | same {g'} (h : WorkSame g g') : KeyedMove g g'
  | task {t task queue immediates} (stack) (h : WorkChange g t task queue immediates) :
    KeyedMove g (g.put t task queue immediates stack)
  | added {task pending} (stack) (h : WorkAdded g task pending) :
    KeyedMove g (g.withTask task pending stack)

/-- Changes in a row. -/
def KeyedMoves : KeyedGate → KeyedGate → Prop := Relation.ReflTransGen KeyedMove

/-- A task whose promise is settled stays as it is, and no task changes its key. -/
structure KeyedLater (g g' : KeyedGate) : Prop where
  limit : g'.maxConcurrency = g.maxConcurrency
  nextTask : g.nextTask ≤ g'.nextTask
  kept : ∀ t < g.nextTask, (g.tasks t).phase.settlements = 1 → g'.tasks t = g.tasks t
  key : ∀ t < g.nextTask, (g'.tasks t).key = (g.tasks t).key

theorem KeyedLater.refl (g : KeyedGate) : KeyedLater g g :=
  ⟨rfl, le_rfl, fun _ _ _ => rfl, fun _ _ => rfl⟩

theorem KeyedLater.trans {a b c : KeyedGate} (h : KeyedLater a b) (h' : KeyedLater b c) :
    KeyedLater a c := by
  refine ⟨h'.limit.trans h.limit, h.nextTask.trans h'.nextTask, fun t ht hsettled => ?_,
    fun t ht => (h'.key t (ht.trans_le h.nextTask)).trans (h.key t ht)⟩
  have hb := h.kept t ht hsettled
  exact (h'.kept t (ht.trans_le h.nextTask) (hb ▸ hsettled)).trans hb

section Moves

variable {g g' : KeyedGate}

/-- **The move.**  What a change keeps. -/
theorem KeyedSound.move (h : KeyedSound g) (hmove : KeyedMove g g') : KeyedSound g' := by
  cases hmove with
  | same hsame => exact h.same hsame
  | task stack hchange => exact h.put hchange
  | added stack hadded => exact h.withTask hadded

theorem KeyedMove.later (hmove : KeyedMove g g') : KeyedLater g g' := by
  cases hmove with
  | same hsame =>
    exact ⟨hsame.limit, hsame.nextTask.ge, fun t _ _ => congrFun hsame.tasks t,
      fun t _ => congrArg WorkTask.key (congrFun hsame.tasks t)⟩
  | task stack hchange =>
    refine ⟨rfl, le_rfl, fun u _ hsettled => keyedPut_tasks_of_ne ?_, fun u _ => hchange.keys u⟩
    rintro rfl
    rw [hchange.unsettled] at hsettled
    cases hsettled
  | added stack hadded =>
    exact ⟨rfl, Nat.le_succ _, fun u hu _ => withTask_of_lt hu,
      fun u hu => congrArg WorkTask.key (withTask_of_lt hu)⟩

theorem KeyedSound.moves (h : KeyedSound g) (hmoves : KeyedMoves g g') : KeyedSound g' := by
  induction hmoves with
  | refl => exact h
  | tail _ hmove ih => exact ih.move hmove

theorem KeyedMoves.later (hmoves : KeyedMoves g g') : KeyedLater g g' := by
  induction hmoves with
  | refl => exact KeyedLater.refl g
  | tail _ hmove ih => exact ih.trans hmove.later

theorem KeyedMoves.of (hmove : KeyedMove g g') : KeyedMoves g g' :=
  Relation.ReflTransGen.single hmove

theorem KeyedMoves.refl (g : KeyedGate) : KeyedMoves g g := Relation.ReflTransGen.refl

theorem KeyedMoves.trans {g'' : KeyedGate} (h : KeyedMoves g g') (h' : KeyedMoves g' g'') :
    KeyedMoves g g'' :=
  Relation.ReflTransGen.trans h h'

end Moves

/-! ## 5. The changes the gate makes -/

section Changes

variable {g : KeyedGate} {q t : ℕ}

/-- Parts of the gate that the invariant does not read. -/
theorem KeyedSound.aside {g' : KeyedGate} (h : KeyedSound g) (hlimit : g'.maxConcurrency = g.maxConcurrency)
    (htasks : g'.tasks = g.tasks) (hnext : g'.nextTask = g.nextTask)
    (himmediates : g'.immediates = g.immediates)
    (hheap : ∀ q, (g'.heap q).pending = (g.heap q).pending ∧
      (g'.heap q).inFlight = (g.heap q).inFlight)
    (hqueues : g'.queues = g.queues) (hnextQueue : g'.nextQueue = g.nextQueue) :
    KeyedMove g g' := by
  refine .same ⟨hlimit, htasks, hnext, himmediates, hheap, hnextQueue.ge, ?_,
    hqueues ▸ h.distinct, fun t _ _ => by rw [hqueues]⟩
  rw [hqueues, hnextQueue]
  exact h.below

theorem KeyedSound.withStack (h : KeyedSound g) (stack : List WorkFrame) :
    KeyedMove g { g with stack := stack } :=
  h.aside rfl rfl rfl rfl (fun _ => ⟨rfl, rfl⟩) rfl rfl

theorem KeyedSound.cleanupQueueIfIdle (h : KeyedSound g) (key : String) (q : ℕ) :
    KeyedMove g (g.cleanupQueueIfIdle key q) := by
  unfold KeyedGate.cleanupQueueIfIdle
  split_ifs <;> exact h.aside rfl rfl rfl rfl (fun _ => ⟨rfl, rfl⟩) rfl rfl

/-- Two tasks of a key that wait or hold a slot belong to one queue. -/
theorem KeyedSound.one_queue (h : KeyedSound g) {u : ℕ} (ht : t < g.nextTask) (hu : u < g.nextTask)
    (hlive : (g.tasks t).phase.isLive = true) (hlive' : (g.tasks u).phase.isLive = true)
    (hkey : (g.tasks t).key = (g.tasks u).key) : (g.tasks t).queue = (g.tasks u).queue := by
  have hlookup := (h.live t ht hlive).2
  rw [hkey, (h.live u hu hlive').2] at hlookup
  exact (Option.some.inj hlookup).symm

/-- Two tasks of a queue that wait or hold a slot have one key. -/
theorem KeyedSound.one_key (h : KeyedSound g) {u : ℕ} (ht : t < g.nextTask) (hu : u < g.nextTask)
    (hlive : (g.tasks t).phase.isLive = true) (hlive' : (g.tasks u).phase.isLive = true)
    (hqueue : (g.tasks t).queue = (g.tasks u).queue) : (g.tasks t).key = (g.tasks u).key := by
  have hmem := mem_of_lookup (h.live t ht hlive).2
  have hmem' := mem_of_lookup (h.live u hu hlive').2
  exact congrArg Prod.fst (List.inj_on_of_nodup_map h.distinct hmem hmem' hqueue)

/-- The head of a queue waits there, and no earlier task of its key waits. -/
theorem KeyedSound.head (h : KeyedSound g) {rest : List ℕ} (hpending : (g.heap q).pending = t :: rest) :
    t < g.nextTask ∧ (g.tasks t).queue = q ∧ (g.tasks t).phase = .queued ∧
      ∀ u < t, (g.tasks u).key = (g.tasks t).key → (g.tasks u).phase ≠ .queued := by
  obtain ⟨ht, hq, hphase⟩ := (h.mem_pending q t).mp (hpending ▸ List.mem_cons_self)
  refine ⟨ht, hq, hphase, fun u hut hkey hqueued => ?_⟩
  have hsame := h.one_queue (hut.trans ht) ht (by rw [hqueued]; rfl) (by rw [hphase]; rfl) hkey
  have hmem := (h.mem_pending q u).mpr ⟨hut.trans ht, hsame.trans hq, hqueued⟩
  have hsorted := h.sorted q
  rw [hpending] at hmem hsorted
  rcases List.mem_cons.mp hmem with rfl | hrest
  · exact lt_irrefl u hut
  · exact lt_asymm hut (List.rel_of_pairwise_cons hsorted hrest)

/-- A task that waits has not been called, and its promise is open. -/
theorem KeyedSound.of_queued (h : KeyedSound g) (ht : t < g.nextTask)
    (hphase : (g.tasks t).phase = .queued) :
    (g.tasks t).starts = 0 ∧ (g.tasks t).settled = [] := by
  have hstarts := h.starts t ht
  have hsettled := h.settled t ht
  rw [hphase] at hstarts hsettled
  exact ⟨hstarts, List.length_eq_zero_iff.mp hsettled⟩

theorem shift_start (hq : (g.tasks t).queue = q) (rest : List ℕ) :
    (g.shift q rest).start q t = g.put t { g.tasks t with phase := .scheduled }
      { g.heap q with pending := rest, inFlight := (g.heap q).inFlight + 1 }
      (g.immediates ++ [t]) g.stack := by
  simp [KeyedGate.shift, KeyedGate.start, KeyedGate.move, KeyedGate.put, KeyedGate.setTask,
    KeyedGate.setQueue, hq]

/-- **The head of a queue starts** where a slot is free. -/
theorem KeyedSound.start (h : KeyedSound g) {rest : List ℕ}
    (hpending : (g.heap q).pending = t :: rest) (hfree : (g.heap q).inFlight < g.limit) :
    KeyedMove g ((g.shift q rest).start q t) := by
  obtain ⟨ht, hq, hphase, hfirst⟩ := h.head hpending
  obtain ⟨hstarts, hsettled⟩ := h.of_queued ht hphase
  have hsorted := h.sorted q
  rw [hpending] at hsorted
  subst hq
  rw [shift_start rfl]
  refine .task _ ⟨ht, rfl, rfl, by rw [hphase]; rfl, by simp, fun _ => by rw [hphase]; rfl, hstarts,
    by rw [hsettled]; rfl, hsorted.of_cons, fun u => ?_, ?_, hfree, fun u => ?_, ?_,
    fun _ => hphase, fun _ => Or.inr hfirst, fun hcalls => by cases hcalls⟩
  · rw [hpending, List.mem_cons]
    constructor
    · intro hu
      exact ⟨Or.inr hu, (List.rel_of_pairwise_cons hsorted hu).ne'⟩
    · rintro ⟨hu, hne⟩
      exact hu.resolve_left hne
  · rw [hphase]
    simp [TaskPhase.holds]
  · rw [List.mem_append, List.mem_singleton]
    constructor
    · rintro (hu | rfl)
      · refine Or.inl ⟨hu, ?_⟩
        rintro rfl
        rw [((h.mem_immediates u).mp hu).2] at hphase
        cases hphase
      · exact Or.inr ⟨rfl, rfl⟩
    · rintro (⟨hu, -⟩ | ⟨rfl, -⟩)
      · exact Or.inl hu
      · exact Or.inr rfl
  · -- a task of the key whose function is still to be called has started before this one
    refine List.pairwise_append.mpr ⟨h.in_turn, List.pairwise_singleton _ _, fun u hu v hv hkey => ?_⟩
    obtain rfl := List.mem_singleton.mp hv
    obtain ⟨hlt, hscheduled⟩ := (h.mem_immediates u).mp hu
    by_contra hnot
    rcases (not_lt.mp hnot).lt_or_eq with hvu | rfl
    · exact h.started_order u hlt v hvu hkey.symm (by rw [hscheduled]; rfl) hphase
    · rw [hscheduled] at hphase
      cases hphase

/-- `#cancelTask` of a task that waits. -/
theorem cancelTask_queued (hphase : (g.tasks t).phase = .queued) (outcome : GateOutcome) :
    g.cancelTask t outcome = (g.put t
      { g.tasks t with phase := .cancelled, settled := (g.tasks t).settled ++ [outcome] }
      { g.heap (g.tasks t).queue with
        pending := (g.heap (g.tasks t).queue).pending.filter (· != t) }
      g.immediates (.cancelHook t :: g.stack), true) := by
  simp [KeyedGate.cancelTask, hphase, KeyedGate.settle, KeyedGate.put, KeyedGate.setTask,
    KeyedGate.setQueue]

/-- `#cancelTask` of any other. -/
theorem cancelTask_other (hphase : (g.tasks t).phase ≠ .queued) (outcome : GateOutcome) :
    g.cancelTask t outcome = (g, false) := by
  simp [KeyedGate.cancelTask, hphase]

/-- The immediates, where a task changes that is not among them. -/
theorem KeyedSound.other_immediates (h : KeyedSound g) {phase : TaskPhase}
    (hphase : (g.tasks t).phase ≠ .scheduled) (hphase' : phase ≠ .scheduled) (u : ℕ) :
    u ∈ g.immediates ↔ (u ∈ g.immediates ∧ u ≠ t) ∨ (u = t ∧ phase = .scheduled) := by
  constructor
  · intro hu
    refine Or.inl ⟨hu, ?_⟩
    rintro rfl
    exact hphase ((h.mem_immediates u).mp hu).2
  · rintro (⟨hu, -⟩ | ⟨-, hscheduled⟩)
    · exact hu
    · exact absurd hscheduled hphase'

theorem KeyedSound.cancelTask (h : KeyedSound g) (ht : t < g.nextTask) (outcome : GateOutcome) :
    KeyedMoves g (g.cancelTask t outcome).1 := by
  by_cases hphase : (g.tasks t).phase = .queued
  swap
  · rw [cancelTask_other hphase]
    exact KeyedMoves.refl g
  obtain ⟨hstarts, hsettled⟩ := h.of_queued ht hphase
  rw [cancelTask_queued hphase]
  refine .of (.task _ ⟨ht, rfl, rfl, by rw [hphase]; rfl, by simp, (fun hlive => by cases hlive),
    hstarts, by rw [hsettled]; rfl, (h.sorted _).filter _, fun u => ?_, ?_, h.bounded _,
    h.other_immediates (by simp [hphase]) (by simp), h.in_turn, (fun hscheduled => by cases hscheduled),
    (fun hstarted => by cases hstarted), fun hcalls => by cases hcalls⟩)
  · simp [List.mem_filter]
  · rw [hphase]
    simp [TaskPhase.holds]

/-- The pending tasks of a queue, where a task changes that is not among them. -/
theorem KeyedSound.other_pending (h : KeyedSound g) (hphase : (g.tasks t).phase ≠ .queued) (u : ℕ) :
    u ∈ (g.heap q).pending ↔ u ∈ (g.heap q).pending ∧ u ≠ t := by
  refine ⟨fun hu => ⟨hu, ?_⟩, And.left⟩
  rintro rfl
  exact hphase ((h.mem_pending q u).mp hu).2.2

/-- The first immediate: no earlier task of its key is among them. -/
theorem KeyedSound.first_immediate (h : KeyedSound g) {rest : List ℕ}
    (himmediates : g.immediates = t :: rest) :
    t < g.nextTask ∧ (g.tasks t).phase = .scheduled ∧
      ∀ u < t, (g.tasks u).key = (g.tasks t).key → (g.tasks u).phase ≠ .scheduled := by
  obtain ⟨ht, hphase⟩ := (h.mem_immediates t).mp (himmediates ▸ List.mem_cons_self)
  refine ⟨ht, hphase, fun u hut hkey hscheduled => ?_⟩
  have hmem := (h.mem_immediates u).mpr ⟨hut.trans ht, hscheduled⟩
  have hturn := h.in_turn
  rw [himmediates] at hmem hturn
  rcases List.mem_cons.mp hmem with rfl | hrest
  · exact lt_irrefl u hut
  · exact lt_asymm hut (List.rel_of_pairwise_cons hturn hrest hkey.symm)

theorem KeyedSound.callTask (h : KeyedSound g) : KeyedMoves g g.callTask := by
  unfold KeyedGate.callTask
  split
  swap
  · exact KeyedMoves.refl g
  rename_i t rest hstack himmediates
  obtain ⟨ht, hphase, hfirst⟩ := h.first_immediate himmediates
  have hstarts := h.starts t ht
  have hsettled := h.settled t ht
  have hturn := h.in_turn
  rw [hphase] at hstarts hsettled
  rw [himmediates] at hturn
  have hput : ({ g.setTask t { g.tasks t with phase := .running, starts := (g.tasks t).starts + 1 } with
      immediates := rest } : KeyedGate) =
      g.put t { g.tasks t with phase := .running, starts := (g.tasks t).starts + 1 }
        (g.heap (g.tasks t).queue) rest g.stack := by
    simp [KeyedGate.put, KeyedGate.setTask, KeyedGate.setQueue]
  rw [hput]
  refine .of (.task _ ⟨ht, rfl, rfl, by rw [hphase]; rfl, by simp, fun _ => by rw [hphase]; rfl, ?_,
    hsettled, h.sorted _, h.other_pending (by simp [hphase]), by rw [hphase]; rfl, h.bounded _,
    fun u => ?_, hturn.of_cons, (fun hscheduled => by cases hscheduled),
    fun _ => Or.inl (by rw [hphase]; rfl), fun _ => Or.inr hfirst⟩)
  · change (g.tasks t).starts + 1 = 1
    rw [hstarts]
    rfl
  · rw [himmediates, List.mem_cons]
    constructor
    · intro hu
      refine Or.inl ⟨Or.inr hu, ?_⟩
      rintro rfl
      exact lt_irrefl u (List.rel_of_pairwise_cons hturn hu rfl)
    · rintro (⟨hu, hne⟩ | ⟨-, hscheduled⟩)
      · exact hu.resolve_left hne
      · cases hscheduled

/-- A task that has been called goes on, and its queue counts what holds a slot. -/
theorem KeyedSound.proceed (h : KeyedSound g) (ht : t < g.nextTask)
    (hcalls : (g.tasks t).phase.calls = 1) (hopen : (g.tasks t).phase.settlements = 0)
    (task : WorkTask) (inFlight : ℕ) (stack : List WorkFrame)
    (hkey : task.key = (g.tasks t).key) (hqueue : task.queue = (g.tasks t).queue)
    (hphase : task.phase.calls = 1) (hstarts : task.starts = (g.tasks t).starts)
    (hholds : task.phase.holds = true → (g.tasks t).phase.holds = true)
    (hsettled : task.settled.length = task.phase.settlements)
    (hcount : inFlight + (if (g.tasks t).phase.holds = true then 1 else 0) =
      (g.heap task.queue).inFlight + if task.phase.holds = true then 1 else 0) :
    KeyedMove g (g.put t task { g.heap task.queue with inFlight := inFlight } g.immediates stack) := by
  have hcalled : ∀ {phase : TaskPhase}, phase.calls = 1 → phase ≠ .queued ∧ phase ≠ .scheduled := by
    intro phase hphase
    constructor
    · rintro rfl
      cases hphase
    · rintro rfl
      cases hphase
  have hbounded := h.bounded task.queue
  refine .task _ ⟨ht, hkey, hqueue, hopen, (hcalled hphase).1, fun hlive => ?_, ?_, hsettled,
    h.sorted _, h.other_pending (hcalled hcalls).1, hcount, ?_,
    h.other_immediates (hcalled hcalls).2 (hcalled hphase).2, h.in_turn,
    fun hscheduled => absurd hscheduled (hcalled hphase).2,
    fun _ => Or.inl (started_of_calls hcalls), fun _ => Or.inl hcalls⟩
  · rw [TaskPhase.isLive, Bool.or_eq_true, beq_iff_eq] at hlive
    rw [TaskPhase.isLive, hholds (hlive.resolve_left (hcalled hphase).1), Bool.or_true]
  · rw [hstarts, h.starts t ht, hcalls, hphase]
  · change inFlight ≤ g.limit
    by_cases hold : (g.tasks t).phase.holds = true
    · rw [if_pos hold] at hcount
      split_ifs at hcount <;> omega
    · rw [if_neg hold, if_neg fun hnew => hold (hholds hnew)] at hcount
      omega

/-- An idle queue has nothing waiting. -/
theorem KeyedSound.of_idle (h : KeyedSound g) (hidle : g.queueIdle q = true) :
    (g.heap q).pending = [] ∧ (g.heap q).inFlight = 0 := by
  simp only [KeyedGate.queueIdle, Bool.and_eq_true, beq_iff_eq] at hidle
  refine ⟨List.eq_nil_iff_forall_not_mem.mpr fun u hu => ?_, hidle.1⟩
  obtain ⟨-, -, hphase⟩ := (h.mem_pending q u).mp hu
  have hmem : u ∈ (g.heap q).pending.filter (fun t => !(g.tasks t).cancelled) :=
    List.mem_filter.mpr ⟨hu, by simp [WorkTask.cancelled, hphase]⟩
  rw [hidle.2] at hmem
  cases hmem

/-- No task that waits or holds a slot belongs to a queue with nothing pending or in flight. -/
theorem KeyedSound.queue_ne (h : KeyedSound g)
    (hempty : (g.heap q).pending = [] ∧ (g.heap q).inFlight = 0) (ht : t < g.nextTask)
    (hlive : (g.tasks t).phase.isLive = true) : (g.tasks t).queue ≠ q := by
  intro hq
  rw [TaskPhase.isLive, Bool.or_eq_true, beq_iff_eq] at hlive
  rcases hlive with hqueued | hholds
  · have hmem := (h.mem_pending q t).mpr ⟨ht, hq, hqueued⟩
    rw [hempty.1] at hmem
    cases hmem
  · have hpos : 0 < (g.holders q).card :=
      Finset.card_pos.mpr ⟨t, mem_queueHolders.mpr ⟨ht, hq, hholds⟩⟩
    have hcount := h.inFlight q
    omega

/-- A queue that is not in use has nothing pending or in flight. -/
theorem KeyedSound.unused (h : KeyedSound g) (hq : g.nextQueue ≤ q) :
    (g.heap q).pending = [] ∧ (g.heap q).inFlight = 0 := by
  have hnone : ∀ t < g.nextTask, (g.tasks t).phase.isLive = true → (g.tasks t).queue ≠ q := by
    intro t ht hlive
    have hbelow := (h.live t ht hlive).1
    omega
  constructor
  · refine List.eq_nil_iff_forall_not_mem.mpr fun t hmem => ?_
    obtain ⟨ht, hqueue, hphase⟩ := (h.mem_pending q t).mp hmem
    exact hnone t ht (by rw [hphase]; rfl) hqueue
  · rw [h.inFlight, Finset.card_eq_zero, Finset.eq_empty_iff_forall_notMem]
    intro t hmem
    obtain ⟨ht, hqueue, hholds⟩ := mem_queueHolders.mp hmem
    exact hnone t ht (by rw [TaskPhase.isLive, hholds, Bool.or_true]) hqueue

/-- **A key gets a queue** where it has none. -/
theorem KeyedSound.queueFor (h : KeyedSound g) (key : String) :
    KeyedMove g (g.queueFor key).1 ∧ (g.queueFor key).2 < (g.queueFor key).1.nextQueue ∧
      (g.queueFor key).1.queues.lookup key = some (g.queueFor key).2 := by
  unfold KeyedGate.queueFor
  cases hlookup : g.queues.lookup key with
  | some q =>
    exact ⟨h.aside rfl rfl rfl rfl (fun _ => ⟨rfl, rfl⟩) rfl rfl, h.below _ (mem_of_lookup hlookup),
      hlookup⟩
  | none =>
    refine ⟨.same ⟨rfl, rfl, rfl, rfl, fun q => ?_, Nat.le_succ _, fun p hp => ?_, ?_,
      fun t ht hlive => ?_⟩, Nat.lt_succ_self _, ?_⟩
    · by_cases hq : q = g.nextQueue
      · subst hq
        obtain ⟨hpending, hinFlight⟩ := h.unused le_rfl
        simp [KeyedGate.setQueue, hpending, hinFlight]
      · simp [KeyedGate.setQueue, hq]
    · rcases List.mem_append.mp hp with hold | hnew
      · exact (h.below p hold).trans (Nat.lt_succ_self _)
      · obtain rfl := List.mem_singleton.mp hnew
        exact Nat.lt_succ_self _
    · change ((g.queues ++ [(key, g.nextQueue)]).map Prod.snd).Nodup
      rw [List.map_append, List.nodup_append]
      refine ⟨h.distinct, List.nodup_singleton _, fun a ha b hb => ?_⟩
      obtain ⟨p, hp, rfl⟩ := List.mem_map.mp ha
      obtain rfl := List.mem_singleton.mp hb
      exact (h.below p hp).ne
    · obtain ⟨-, hold⟩ := h.live t ht hlive
      change (g.queues ++ [(key, g.nextQueue)]).lookup (g.tasks t).key = _
      rw [List.lookup_append, hold]
      rfl
    · change (g.queues ++ [(key, g.nextQueue)]).lookup key = _
      rw [List.lookup_append, hlookup]
      simp

/-- **The map drops an idle queue.**  No task that waits or holds a slot belongs to it. -/
theorem KeyedSound.cleanupMicrotask (h : KeyedSound g) (key : String) (q : ℕ) :
    KeyedMoves g (g.cleanupMicrotask key q) := by
  unfold KeyedGate.cleanupMicrotask
  by_cases hready : g.stack = [] ∧ (key, q) ∈ g.cleanups
  swap
  · rw [if_neg hready]
    exact KeyedMoves.refl g
  rw [if_pos hready]
  by_cases hidle : g.queues.lookup key = some q ∧ g.queueIdle q = true
  swap
  · rw [if_neg hidle]
    exact .of (h.aside rfl rfl rfl rfl (fun _ => ⟨rfl, rfl⟩) rfl rfl)
  rw [if_pos hidle]
  refine .of (.same ⟨rfl, rfl, rfl, rfl, fun _ => ⟨rfl, rfl⟩, le_rfl,
    fun p hp => h.below p (List.mem_of_mem_filter hp),
    h.distinct.sublist (List.filter_sublist.map _), fun t ht hlive => ?_⟩)
  refine lookup_filter_ne _ fun hsame => h.queue_ne (h.of_idle hidle.2) ht hlive ?_
  obtain ⟨-, hlookup⟩ := h.live t ht hlive
  rw [hsame, hidle.1] at hlookup
  exact (Option.some.inj hlookup).symm

end Changes

end PosseClient
