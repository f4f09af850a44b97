/-
# The order in which the reader/writer gate queues

`#insertTask` of `AsyncGate.js` has one branch for a writer with a positive priority and one for
each policy, and each looks for its place in a queue that the other branches have filled.

* `Gate.MayPrecede` says which two tasks may wait one before the other: under `writer-priority`
  no reader before a writer, and a writer before an earlier one only by a higher priority, and not
  when the earlier one had aged.
* `insertTask_inOrder_iff`: an insertion keeps such a queue in order exactly when `Gate.Fits`.
  The first branch knows no policy and looks at writers only, so that a writer with a priority may
  land behind readers, and before a writer it does not see behind the one it stops at.
* Everything else an event does takes tasks out of queues (`Shrinks`).
-/
import PosseClient.Concurrency.GateExclusion

namespace PosseClient

/-! ## 1. Places in a list -/

section Places

variable {α : Type*} {R : α → α → Prop} {p : α → Bool} {Q : α → Prop} {l : List α}

theorem pairwise_splice {t : α} (i : ℕ) (h : l.Pairwise R) :
    (l.take i ++ t :: l.drop i).Pairwise R ↔
      (∀ a ∈ l.take i, R a t) ∧ ∀ b ∈ l.drop i, R t b := by
  have hsplit : (l.take i ++ l.drop i).Pairwise R := (List.take_append_drop i l).symm ▸ h
  obtain ⟨htake, hdrop, hacross⟩ := List.pairwise_append.mp hsplit
  rw [List.pairwise_append, List.pairwise_cons]
  constructor
  · rintro ⟨-, ⟨hafter, -⟩, hbefore⟩
    exact ⟨fun a ha => hbefore a ha t List.mem_cons_self, hafter⟩
  · rintro ⟨hbefore, hafter⟩
    refine ⟨htake, ⟨hafter, hdrop⟩, fun a ha b hb => ?_⟩
    rcases List.mem_cons.mp hb with rfl | hb
    · exact hbefore a ha
    · exact hacross a ha b hb

/-- What holds from the first match on holds behind every match. -/
theorem forall_drop_findIdx_iff (hself : ∀ a, p a = true → Q a) :
    (∀ b ∈ l.drop (l.findIdx p), Q b) ↔ l.Pairwise (fun a b => p a = true → Q b) := by
  induction l with
  | nil => simp
  | cons x l ih =>
    rw [List.findIdx_cons, List.pairwise_cons]
    cases hx : p x with
    | true =>
      simp only [cond_true, List.drop_zero, List.mem_cons, forall_eq_or_imp, forall_true_left]
      constructor
      · rintro ⟨-, hrest⟩
        exact ⟨hrest, List.pairwise_of_forall_mem_list fun _ _ b hb _ => hrest b hb⟩
      · rintro ⟨hrest, -⟩
        exact ⟨hself x hx, hrest⟩
    | false =>
      simp only [cond_false, List.drop_succ_cons, ih, Bool.false_eq_true, false_implies,
        implies_true, true_and]

theorem not_of_mem_take_findIdx {a : α} (h : a ∈ l.take (l.findIdx p)) : p a = false := by
  induction l with
  | nil => simp at h
  | cons x l ih =>
    rw [List.findIdx_cons] at h
    cases hx : p x with
    | true => simp [hx] at h
    | false =>
      rw [hx, cond_false, List.take_succ_cons, List.mem_cons] at h
      rcases h with rfl | h
      · exact hx
      · exact ih h

/-- Everything before a match is related to it. -/
theorem rel_first_match (h : l.Pairwise R) (hsome : ∃ e ∈ l, p e = true) :
    ∃ e, p e = true ∧ ∀ a ∈ l.take (l.findIdx p), R a e := by
  have hlt : l.findIdx p < l.length := List.findIdx_lt_length.mpr hsome
  refine ⟨l[l.findIdx p], List.findIdx_getElem, fun a ha => ?_⟩
  have hsplit : (l.take (l.findIdx p) ++ l.drop (l.findIdx p)).Pairwise R :=
    (List.take_append_drop _ l).symm ▸ h
  refine (List.pairwise_append.mp hsplit).2.2 a ha _ ?_
  rw [List.drop_eq_getElem_cons hlt]
  exact List.mem_cons_self

end Places

/-! ## 2. The order of a queue -/

/-- One task waits before another: under `writer-priority` a reader before no writer, and a
writer before one that came earlier only by another, positive priority, and only if the earlier
one had not aged when it came. -/
def Gate.MayPrecede (g : Gate) (a b : ℕ) : Prop :=
  (g.policy = .writerPriority → (g.tasks b).mode = .blocking → (g.tasks a).mode = .blocking) ∧
  ((g.tasks a).mode = .blocking → (g.tasks b).mode = .blocking → b < a →
    0 < (g.tasks a).priority ∧ (g.tasks a).priority ≠ (g.tasks b).priority ∧
      (g.tasks a).requestedAt - (g.tasks b).requestedAt < priorityAgingMs)

/-- Every queue of the gate is in order. -/
def Gate.QueuesInOrder (g : Gate) : Prop := ∀ s, (g.heap s).queue.Pairwise g.MayPrecede

/-- The writer a prioritised task stops at: of a lower priority, and not aged. -/
def Gate.yields (g : Gate) (now : ℕ) (priority : ℚ) (e : ℕ) : Bool :=
  !(g.tasks e).cancelled && !decide ((g.tasks e).mode = .nonBlocking) &&
    decide (now - (g.tasks e).requestedAt < priorityAgingMs) &&
    decide ((g.tasks e).priority < priority)

/-- **Where the first branch of `#insertTask` keeps a queue in order.**  Under `writer-priority`
a writer yields, or no reader waits; and behind a writer that yields there waits no writer that
has aged, and none of the task's own priority. -/
def Gate.Fits (g : Gate) (queue : List ℕ) (now : ℕ) (priority : ℚ) : Prop :=
  0 < priority →
    (g.policy = .writerPriority → (∃ e ∈ queue, g.yields now priority e = true) ∨
      ∀ e ∈ queue, (g.tasks e).mode = .blocking) ∧
    queue.Pairwise (fun a b => g.yields now priority a = true → (g.tasks b).mode = .blocking →
      priority ≠ (g.tasks b).priority ∧ now - (g.tasks b).requestedAt < priorityAgingMs)

instance (g : Gate) (queue : List ℕ) (now : ℕ) (priority : ℚ) :
    Decidable (g.Fits queue now priority) := by
  unfold Gate.Fits
  infer_instance

section Insert

variable {g : Gate} {s t : ℕ}

theorem mode_ne_nonBlocking {mode : GateMode} : mode ≠ .nonBlocking ↔ mode = .blocking := by
  cases mode <;> simp

theorem yields_iff {now : ℕ} {priority : ℚ} {e : ℕ} :
    g.yields now priority e = true ↔ (g.tasks e).cancelled = false ∧
      (g.tasks e).mode = .blocking ∧ now - (g.tasks e).requestedAt < priorityAgingMs ∧
      (g.tasks e).priority < priority := by
  simp [Gate.yields, and_assoc, mode_ne_nonBlocking]

/-- Anything may wait before a reader. -/
theorem mayPrecede_reader {a b : ℕ} (h : (g.tasks b).mode = .nonBlocking) : g.MayPrecede a b := by
  constructor
  · intro _ hwriter
    rw [h] at hwriter
    cases hwriter
  · intro _ hwriter
    rw [h] at hwriter
    cases hwriter

/-- The earlier of two tasks waits before the later one, unless the policy objects. -/
theorem mayPrecede_earlier {a b : ℕ} (hlt : a < b) (h : g.policy = .writerPriority →
    (g.tasks b).mode = .blocking → (g.tasks a).mode = .blocking) : g.MayPrecede a b :=
  ⟨h, fun _ _ hgt => absurd hgt (by omega)⟩

/-- **The first branch.**  A writer with a priority stops at the first writer that yields. -/
theorem prioritised_inOrder_iff {now : ℕ} {priority : ℚ} {queue : List ℕ}
    (horder : queue.Pairwise g.MayPrecede) (hbelow : ∀ e ∈ queue, e < t)
    (hmode : (g.tasks t).mode = .blocking) (hpriority : (g.tasks t).priority = priority)
    (hnow : (g.tasks t).requestedAt = now) (hpos : 0 < priority) :
    (queue.take (queue.findIdx (g.yields now priority)) ++
        t :: queue.drop (queue.findIdx (g.yields now priority))).Pairwise g.MayPrecede ↔
      g.Fits queue now priority := by
  have hbefore : (∀ a ∈ queue.take (queue.findIdx (g.yields now priority)), g.MayPrecede a t) ↔
      (g.policy = .writerPriority → (∃ e ∈ queue, g.yields now priority e = true) ∨
        ∀ e ∈ queue, (g.tasks e).mode = .blocking) := by
    have hiff : ∀ a ∈ queue, g.MayPrecede a t ↔
        (g.policy = .writerPriority → (g.tasks a).mode = .blocking) := by
      intro a ha
      have hlt := hbelow a ha
      rw [Gate.MayPrecede, hmode]
      constructor
      · exact fun h hpolicy => h.1 hpolicy rfl
      · exact fun h => ⟨fun hpolicy _ => h hpolicy, fun _ _ hgt => absurd hgt (by omega)⟩
    by_cases hsome : ∃ e ∈ queue, g.yields now priority e = true
    · -- what stands before a writer that yields is a writer
      obtain ⟨e, he, hrel⟩ := rel_first_match horder hsome
      refine iff_of_true (fun a ha => ?_) fun _ => Or.inl hsome
      exact (hiff a (List.mem_of_mem_take ha)).mpr
        fun hpolicy => (hrel a ha).1 hpolicy (yields_iff.mp he).2.1
    · have hend : queue.findIdx (g.yields now priority) = queue.length := by
        rw [List.findIdx_eq_length]
        intro e he
        exact Bool.eq_false_of_not_eq_true fun hyields => hsome ⟨e, he, hyields⟩
      rw [hend, List.take_length]
      constructor
      · exact fun h hpolicy => Or.inr fun e he => (hiff e he).mp (h e he) hpolicy
      · exact fun h a ha => (hiff a ha).mpr fun hpolicy =>
          (h hpolicy).resolve_left hsome a ha
  have hafter : (∀ b ∈ queue.drop (queue.findIdx (g.yields now priority)), g.MayPrecede t b) ↔
      queue.Pairwise (fun a b => g.yields now priority a = true → (g.tasks b).mode = .blocking →
        priority ≠ (g.tasks b).priority ∧ now - (g.tasks b).requestedAt < priorityAgingMs) := by
    rw [← forall_drop_findIdx_iff]
    · refine forall₂_congr fun b hb => ?_
      have hlt := hbelow b (List.mem_of_mem_drop hb)
      rw [Gate.MayPrecede, hmode, hpriority, hnow]
      constructor
      · exact fun h hwriter => (h.2 rfl hwriter hlt).2
      · exact fun h => ⟨fun _ _ => rfl, fun _ hwriter _ => ⟨hpos, h hwriter⟩⟩
    · intro a ha _
      obtain ⟨-, -, hfresh, hlower⟩ := yields_iff.mp ha
      exact ⟨hlower.ne', hfresh⟩
  rw [pairwise_splice _ horder, hbefore, hafter, Gate.Fits]
  exact ⟨fun h _ => h, fun h => h hpos⟩

/-- **The other branches** keep every queue in order. -/
theorem policy_inOrder {task : GateTask} (horder : (g.heap s).queue.Pairwise g.MayPrecede)
    (hbelow : ∀ e ∈ (g.heap s).queue, e < t)
    (hlive : ∀ e ∈ (g.heap s).queue, (g.tasks e).cancelled = false) (htask : g.tasks t = task)
    (hnormal : ¬ (task.mode = .blocking ∧ 0 < task.priority)) :
    ((g.heap s).queue.take (g.insertIndex s task) ++
      t :: (g.heap s).queue.drop (g.insertIndex s task)).Pairwise g.MayPrecede := by
  rw [pairwise_splice _ horder, Gate.insertIndex]
  dsimp only
  rw [if_neg hnormal]
  by_cases hpolicy : g.policy = .writerPriority
  · rw [if_pos hpolicy]
    cases hmode : task.mode with
    | blocking =>
      rw [if_pos rfl]
      constructor
      · intro a ha
        have hin := List.mem_of_mem_take ha
        refine mayPrecede_earlier (hbelow a hin) fun _ _ => ?_
        have hnot := not_of_mem_take_findIdx ha
        rw [hlive a hin, Bool.not_false, Bool.true_and, decide_eq_false_iff_not] at hnot
        exact mode_ne_nonBlocking.mp hnot
      · -- behind the first reader wait readers only
        have hreaders := (forall_drop_findIdx_iff (l := (g.heap s).queue)
          (p := fun e => !(g.tasks e).cancelled && decide ((g.tasks e).mode = .nonBlocking))
          (Q := fun b => (g.tasks b).mode = .nonBlocking) (by simp)).mpr (by
            refine horder.imp fun {a b} hab ha => ?_
            by_contra hwriter
            have hmodea := hab.1 hpolicy (mode_ne_nonBlocking.mp hwriter)
            simp [hmodea] at ha)
        exact fun b hb => mayPrecede_reader (hreaders b hb)
    | nonBlocking =>
      rw [if_neg (by simp), List.take_length, List.drop_length]
      exact ⟨fun a _ => mayPrecede_reader (htask ▸ hmode), by simp⟩
  · rw [if_neg hpolicy]
    split_ifs with hback
    · rw [List.take_length, List.drop_length]
      exact ⟨fun a ha => mayPrecede_earlier (hbelow a ha) fun h => absurd h hpolicy, by simp⟩
    · have hmode : (g.tasks t).mode = .nonBlocking := by
        rw [htask]
        by_contra hwriter
        exact hback (Or.inr (Or.inl hwriter))
      refine ⟨fun a _ => mayPrecede_reader hmode, fun b _ => ⟨fun h => absurd h hpolicy, ?_⟩⟩
      intro hwriter
      rw [hmode] at hwriter
      cases hwriter

theorem insertTask_queue (g : Gate) (s t : ℕ) : ((g.insertTask s t).heap s).queue =
    (g.heap s).queue.take (g.insertIndex s (g.tasks t)) ++
      t :: (g.heap s).queue.drop (g.insertIndex s (g.tasks t)) := by
  simp [Gate.insertTask, Gate.setState]

theorem insertTask_heap_of_ne {other : ℕ} (h : other ≠ s) :
    (g.insertTask s t).heap other = g.heap other := by
  simp [Gate.insertTask, Gate.setState, h]

theorem insertTask_below (ht : t < g.nextTask)
    (hbelow : ∀ s, ∀ e ∈ (g.heap s).queue, e < g.nextTask) (other : ℕ) :
    ∀ e ∈ ((g.insertTask s t).heap other).queue, e < (g.insertTask s t).nextTask := by
  intro e he
  by_cases hother : other = s
  · rw [hother, insertTask_queue, mem_splice] at he
    rcases he with he | rfl
    · exact hbelow s e he
    · exact ht
  · rw [insertTask_heap_of_ne hother] at he
    exact hbelow other e he

/-- **What an insertion keeps in order**, and exactly what. -/
theorem insertTask_inOrder_iff (horder : (g.heap s).queue.Pairwise g.MayPrecede)
    (hbelow : ∀ e ∈ (g.heap s).queue, e < t)
    (hlive : ∀ e ∈ (g.heap s).queue, (g.tasks e).cancelled = false) :
    ((g.insertTask s t).heap s).queue.Pairwise (g.insertTask s t).MayPrecede ↔
      ((g.tasks t).mode = .blocking →
        g.Fits (g.heap s).queue (g.tasks t).requestedAt (g.tasks t).priority) := by
  have hrel : (g.insertTask s t).MayPrecede = g.MayPrecede := rfl
  rw [insertTask_queue, hrel]
  by_cases hfirst : (g.tasks t).mode = .blocking ∧ 0 < (g.tasks t).priority
  · have hindex : g.insertIndex s (g.tasks t) = (g.heap s).queue.findIdx
        (g.yields (g.tasks t).requestedAt (g.tasks t).priority) := by
      unfold Gate.insertIndex
      dsimp only
      rw [if_pos hfirst]
      rfl
    rw [hindex, prioritised_inOrder_iff horder hbelow hfirst.1 rfl rfl hfirst.2]
    exact ⟨fun h _ => h, fun h => h hfirst.1⟩
  · refine iff_of_true (policy_inOrder horder hbelow hlive rfl hfirst) ?_
    exact fun hmode hpos => absurd ⟨hmode, hpos⟩ hfirst

end Insert

/-! ## 3. What takes tasks out of queues -/

/-- Tasks leave queues and keep what the order reads of them; new tasks may be made. -/
structure Shrinks (g g' : Gate) : Prop where
  policy : g'.policy = g.policy
  nextTask : g.nextTask ≤ g'.nextTask
  same : ∀ t < g.nextTask, (g'.tasks t).mode = (g.tasks t).mode ∧
    (g'.tasks t).priority = (g.tasks t).priority ∧
    (g'.tasks t).requestedAt = (g.tasks t).requestedAt
  queue : ∀ s, (g'.heap s).queue.Sublist (g.heap s).queue

theorem Shrinks.refl (g : Gate) : Shrinks g g :=
  ⟨rfl, le_rfl, fun _ _ => ⟨rfl, rfl, rfl⟩, fun _ => List.Sublist.refl _⟩

theorem Shrinks.trans {a b c : Gate} (h : Shrinks a b) (h' : Shrinks b c) : Shrinks a c := by
  refine ⟨h'.policy.trans h.policy, h.nextTask.trans h'.nextTask, fun t ht => ?_,
    fun s => (h'.queue s).trans (h.queue s)⟩
  obtain ⟨hmode, hpriority, hat⟩ := h.same t ht
  obtain ⟨hmode', hpriority', hat'⟩ := h'.same t (ht.trans_le h.nextTask)
  exact ⟨hmode'.trans hmode, hpriority'.trans hpriority, hat'.trans hat⟩

section Shrinking

variable {g g' : Gate}

/-- **A queue that is in order stays so when tasks leave it.** -/
theorem Shrinks.inOrder (h : Shrinks g g') (horder : g.QueuesInOrder)
    (hbelow : ∀ s, ∀ t ∈ (g.heap s).queue, t < g.nextTask) : g'.QueuesInOrder := by
  intro s
  have hsame : ∀ {t : ℕ}, t ∈ (g'.heap s).queue → t < g.nextTask :=
    fun ht => hbelow s _ ((h.queue s).subset ht)
  refine List.Pairwise.imp_of_mem ?_ ((horder s).sublist (h.queue s))
  intro a b ha hb hab
  obtain ⟨hmode, hpriority, hat⟩ := h.same a (hsame ha)
  obtain ⟨hmode', hpriority', hat'⟩ := h.same b (hsame hb)
  rwa [Gate.MayPrecede, h.policy, hmode, hpriority, hat, hmode', hpriority', hat']

/-- Other parts of the gate change. -/
theorem Shrinks.of_same (hpolicy : g'.policy = g.policy) (hnext : g'.nextTask = g.nextTask)
    (htasks : g'.tasks = g.tasks) (hheap : g'.heap = g.heap) : Shrinks g g' := by
  refine ⟨hpolicy, hnext.ge, fun t _ => ?_, fun s => ?_⟩
  · rw [htasks]
    exact ⟨rfl, rfl, rfl⟩
  · rw [hheap]

theorem Shrinks.setState (s : ℕ) {state : KeyState}
    (h : state.queue.Sublist (g.heap s).queue) : Shrinks g (g.setState s state) := by
  refine ⟨rfl, le_rfl, fun _ _ => ⟨rfl, rfl, rfl⟩, fun other => ?_⟩
  by_cases hother : other = s
  · subst hother
    simpa [Gate.setState] using h
  · simp [Gate.setState, hother]

theorem Shrinks.setTask (t : ℕ) {task : GateTask} (hmode : task.mode = (g.tasks t).mode)
    (hpriority : task.priority = (g.tasks t).priority)
    (hat : task.requestedAt = (g.tasks t).requestedAt) : Shrinks g (g.setTask t task) := by
  refine ⟨rfl, le_rfl, fun other _ => ?_, fun _ => List.Sublist.refl _⟩
  by_cases hother : other = t
  · subst hother
    simp [Gate.setTask, hmode, hpriority, hat]
  · simp [Gate.setTask, hother]

theorem Shrinks.addTask (task : GateTask) : Shrinks g (g.addTask task) := by
  refine ⟨rfl, Nat.le_succ _, fun t ht => ?_, fun _ => List.Sublist.refl _⟩
  simp [Gate.addTask, Gate.setTask, ht.ne]

theorem Shrinks.cleanupState (g : Gate) (key : String) (s : ℕ) :
    Shrinks g (g.cleanupState key s) := by
  unfold Gate.cleanupState
  split_ifs
  · exact Shrinks.of_same rfl rfl rfl rfl
  · exact Shrinks.refl g

theorem Shrinks.move (g : Gate) (t : ℕ) (phase : TaskPhase) : Shrinks g (g.move t phase) :=
  Shrinks.setTask t rfl rfl rfl

theorem Shrinks.startReader (g : Gate) (s t : ℕ) : Shrinks g (g.startReader s t) := by
  refine Shrinks.trans ?_ (Shrinks.move _ t _)
  exact Shrinks.setState s (List.Sublist.refl _)

theorem Shrinks.startWriter (g : Gate) (s t : ℕ) : Shrinks g (g.startWriter s t) := by
  refine Shrinks.trans ?_ (Shrinks.move _ t _)
  exact Shrinks.setState s (List.Sublist.refl _)

theorem Shrinks.settle (g : Gate) (t : ℕ) (phase : TaskPhase) (outcome : GateOutcome) :
    Shrinks g (g.settle t phase outcome) :=
  Shrinks.setTask t rfl rfl rfl

/-- `#drain` shifts a prefix off the queue. -/
theorem Shrinks.drainLoop (key : String) {s : ℕ} (queue : List ℕ) : ∀ {g : Gate},
    (g.heap s).queue = queue → Shrinks g (g.drainLoop key s queue) := by
  induction queue with
  | nil => exact fun _ => Shrinks.cleanupState _ key s
  | cons t rest ih =>
    intro g hqueue
    have hshift : Shrinks g (g.shift s rest) :=
      Shrinks.setState s (hqueue ▸ List.sublist_cons_self t rest)
    have hrest : ((g.shift s rest).heap s).queue = rest := by simp [Gate.shift, Gate.setState]
    unfold Gate.drainLoop
    split
    · exact hshift.trans (ih hrest)
    · split
      · refine (hshift.trans (Shrinks.startReader _ s t)).trans (ih ?_)
        simp [Gate.startReader, Gate.move, Gate.setTask, Gate.setState, hrest]
      · split
        · exact Shrinks.refl g
        · exact hshift.trans (Shrinks.startWriter _ s t)

theorem Shrinks.drain (g : Gate) (key : String) (s : ℕ) : Shrinks g (g.drain key s) := by
  unfold Gate.drain
  split_ifs
  · exact Shrinks.cleanupState g key s
  · exact Shrinks.refl g
  · exact Shrinks.drainLoop key _ rfl

theorem Shrinks.cancelWaiter (g : Gate) (t : ℕ) (outcome : GateOutcome) :
    Shrinks g (g.cancelWaiter t outcome).1 := by
  unfold Gate.cancelWaiter
  dsimp only
  split_ifs
  · exact Shrinks.refl g
  · have hremoved : Shrinks g (g.setState (g.tasks t).state
        { g.heap (g.tasks t).state with
          queue := (g.heap (g.tasks t).state).queue.filter (· != t) }) :=
      Shrinks.setState _ List.filter_sublist
    refine (hremoved.trans (Shrinks.settle _ t .cancelled outcome)).trans ?_
    exact Shrinks.of_same rfl rfl rfl rfl

theorem Shrinks.continueClose (reason : String) (pending : List ℕ) (g : Gate) :
    Shrinks g (g.continueClose reason pending) := by
  induction pending with
  | nil => exact Shrinks.refl g
  | cons t rest ih =>
    unfold Gate.continueClose
    dsimp only
    split_ifs
    · refine Shrinks.trans ?_ (Shrinks.cancelWaiter _ t _)
      exact Shrinks.of_same rfl rfl rfl rfl
    · exact ih

theorem Shrinks.resume (g : Gate) : Shrinks g g.resume := by
  unfold Gate.resume
  split
  · refine Shrinks.trans ?_ (Shrinks.continueClose _ _ _)
    exact Shrinks.of_same rfl rfl rfl rfl
  · exact Shrinks.refl g

theorem Shrinks.stateFor (h : GateSound g) (key : String) : Shrinks g (g.stateFor key).1 := by
  obtain ⟨-, -, -, hheap, htasks, hnext, -⟩ := h.stateFor key
  refine Shrinks.of_same ?_ hnext htasks hheap
  unfold Gate.stateFor
  split <;> rfl

theorem Shrinks.hookReturns (g : Gate) : Shrinks g g.hookReturns := by
  unfold Gate.hookReturns
  split
  · refine Shrinks.trans (Shrinks.trans ?_ (Shrinks.drain _ _ _)) (Shrinks.resume _)
    exact Shrinks.of_same rfl rfl rfl rfl
  · refine Shrinks.trans (Shrinks.trans (Shrinks.trans ?_ (Shrinks.drain _ _ _))
      (Shrinks.settle _ _ _ _)) (Shrinks.resume _)
    exact Shrinks.of_same rfl rfl rfl rfl
  · exact Shrinks.refl g

theorem Shrinks.release (g : Gate) (t : ℕ) : Shrinks g (g.release t) := by
  unfold Gate.release
  dsimp only
  split
  · exact Shrinks.setState _ (List.Sublist.refl _)
  · exact Shrinks.setState _ (List.Sublist.refl _)

/-- The events that are no call. -/
def GateEvent.isCall : GateEvent → Bool
  | .runBlocking _ => true
  | .runNonBlocking _ => true
  | _ => false

/-- **An event that is no call takes tasks out of queues at most.** -/
theorem Shrinks.step (g : Gate) {event : GateEvent} (hcall : event.isCall = false) :
    Shrinks g (assetGateStep g event) := by
  cases event with
  | runBlocking call => cases hcall
  | runNonBlocking call => cases hcall
  | abort t =>
    change Shrinks g (g.abort t)
    unfold Gate.abort
    split_ifs
    · exact Shrinks.cancelWaiter g t _
    · exact Shrinks.refl g
  | close reason =>
    change Shrinks g (g.close reason)
    unfold Gate.close
    split_ifs
    · exact Shrinks.refl g
    · refine Shrinks.trans ?_ (Shrinks.continueClose _ _ _)
      exact Shrinks.of_same rfl rfl rfl rfl
  | hookReturns => exact Shrinks.hookReturns g
  | timeout t =>
    change Shrinks g (g.timeout t)
    unfold Gate.timeout
    split
    · split_ifs
      · exact Shrinks.cancelWaiter g t _
      · exact Shrinks.refl g
    · exact Shrinks.refl g
  | callTask t =>
    change Shrinks g (g.callTask t)
    unfold Gate.callTask
    split_ifs
    · exact Shrinks.setTask t rfl rfl rfl
    · exact Shrinks.refl g
  | taskSettles t result =>
    change Shrinks g (g.taskSettles t result)
    unfold Gate.taskSettles
    split_ifs
    · exact Shrinks.setTask t rfl rfl rfl
    · exact Shrinks.refl g
  | beforeReleaseSettles t hookThrew =>
    change Shrinks g (g.beforeReleaseSettles t hookThrew)
    unfold Gate.beforeReleaseSettles
    split
    · split_ifs
      · refine ((Shrinks.release g t).trans (Shrinks.move _ t .releasing)).trans ?_
        exact Shrinks.of_same rfl rfl rfl rfl
      · exact Shrinks.refl g
    · exact Shrinks.refl g
  | cleanupMicrotask key s =>
    change Shrinks g (g.cleanupMicrotask key s)
    unfold Gate.cleanupMicrotask
    split_ifs <;> exact Shrinks.of_same rfl rfl rfl rfl

end Shrinking

/-! ## 4. Runs -/

/-- The queue a call on this key would join. -/
def Gate.queueOf (g : Gate) (key : String) : List ℕ :=
  match g.states.lookup key with
  | some s => (g.heap s).queue
  | none => []

/-- **The calls that keep the queues in order**: all but a `runBlocking` with a positive priority
that is queued (the gate is open, the signal not aborted) where it does not fit. -/
def KeepsOrder (g : Gate) : GateEvent → Prop
  | .runBlocking call => g.closed = false → call.signal ≠ some true →
      g.Fits (g.queueOf (normalizeGateKey call.key)) call.now call.priority
  | _ => True

instance (g : Gate) (event : GateEvent) : Decidable (KeepsOrder g event) := by
  unfold KeepsOrder
  split <;> infer_instance

section Runs

variable {g : Gate}

theorem queueOf_stateFor (h : GateSound g) (key : String) :
    ((g.stateFor key).1.heap (g.stateFor key).2).queue = g.queueOf key := by
  obtain ⟨-, -, -, hheap, -⟩ := h.stateFor key
  rw [hheap]
  unfold Gate.queueOf Gate.stateFor
  cases g.states.lookup key with
  | none => exact congrArg KeyState.queue (h.heap_fresh le_rfl)
  | some s => rfl

theorem GateSound.queue_below (h : GateSound g) (s : ℕ) : ∀ t ∈ (g.heap s).queue, t < g.nextTask :=
  fun t ht => ((h.mem_queue s t).mp ht).1

theorem GateSound.queue_live (h : GateSound g) (s : ℕ) :
    ∀ t ∈ (g.heap s).queue, (g.tasks t).cancelled = false := by
  intro t ht
  simp [GateTask.cancelled, ((h.mem_queue s t).mp ht).2.2]

theorem Gate.Fits.congr {g' : Gate} {queue : List ℕ} {now : ℕ} {priority : ℚ}
    (h : g.Fits queue now priority) (hpolicy : g'.policy = g.policy)
    (htasks : ∀ e ∈ queue, g'.tasks e = g.tasks e) : g'.Fits queue now priority := by
  have hyields : ∀ e ∈ queue, g'.yields now priority e = g.yields now priority e := by
    intro e he
    rw [Gate.yields, Gate.yields, htasks e he]
  intro hpos
  obtain ⟨hreaders, hbehind⟩ := h hpos
  constructor
  · rw [hpolicy]
    refine fun hwriter => (hreaders hwriter).imp ?_ fun hall e he => (htasks e he) ▸ hall e he
    rintro ⟨e, he, hyield⟩
    exact ⟨e, he, (hyields e he).trans hyield⟩
  · refine hbehind.imp_of_mem fun {a b} ha hb hab => ?_
    rw [hyields a ha, htasks b hb]
    exact hab

/-- **`#enqueue`**, whose insertion fits. -/
theorem GateInv.enqueue_inOrder (h : GateInv g) (horder : g.QueuesInOrder) (call : GateCall)
    (hfits : call.mode = .blocking → g.closed = false → call.signal ≠ some true →
      g.Fits (g.queueOf (normalizeGateKey call.key)) call.now call.priority) :
    (g.enqueue call).QueuesInOrder := by
  unfold Gate.enqueue
  dsimp only
  cases hclosed : g.closed with
  | true =>
    rw [if_pos rfl]
    exact (Shrinks.addTask _).inOrder horder h.toGateSound.queue_below
  | false =>
    rw [if_neg (by simp)]
    have hshrinks := Shrinks.stateFor h.toGateSound (normalizeGateKey call.key)
    have hqueue := queueOf_stateFor h.toGateSound (normalizeGateKey call.key)
    obtain ⟨hsound, -, -, hheap, htasks, hnext, -⟩ :=
      h.toGateSound.stateFor (normalizeGateKey call.key)
    generalize g.stateFor (normalizeGateKey call.key) = p at *
    obtain ⟨g₁, s⟩ := p
    dsimp only at *
    have hadded : Shrinks g (g₁.addTask (g₁.newTask call s)) :=
      hshrinks.trans (Shrinks.addTask _)
    have horder₂ := hadded.inOrder horder h.toGateSound.queue_below
    have hpolicy := hshrinks.policy
    -- the waiter is the only new task
    have hold : ∀ e ∈ (g.heap s).queue,
        (g₁.addTask (g₁.newTask call s)).tasks e = g.tasks e := by
      intro e he
      have hne : e ≠ g₁.nextTask := by
        have hlt := h.toGateSound.queue_below s e he
        omega
      simp [Gate.addTask, Gate.setTask, hne, htasks]
    have hself : (g₁.addTask (g₁.newTask call s)).tasks g₁.nextTask = g₁.newTask call s := by
      simp [Gate.addTask, Gate.setTask]
    rw [hheap] at hqueue
    have hinsert : call.signal ≠ some true →
        ((g₁.addTask (g₁.newTask call s)).insertTask s g₁.nextTask).QueuesInOrder := by
      intro hsignal other
      by_cases hother : other = s
      · subst hother
        refine (insertTask_inOrder_iff (horder₂ other) ?_ ?_).mpr ?_
        · intro e he
          rw [hnext]
          exact h.toGateSound.queue_below other e (hheap ▸ he)
        · intro e he
          have hin : e ∈ (g.heap other).queue := hheap ▸ he
          rw [hold e hin]
          exact h.toGateSound.queue_live other e hin
        · rw [hself]
          intro hmode
          have hfit := hfits hmode hclosed hsignal
          rw [← hqueue] at hfit
          have hpriority : (g₁.newTask call other).priority = call.priority := if_pos hmode
          rw [hpriority]
          change Gate.Fits _ (g₁.heap other).queue call.now call.priority
          rw [hheap]
          exact hfit.congr hpolicy hold
      · rw [insertTask_heap_of_ne hother]
        exact horder₂ other
    have hbelow := insertTask_below (g := g₁.addTask (g₁.newTask call s)) (s := s)
      (t := g₁.nextTask) (Nat.lt_succ_self _) fun other e he =>
        (hsound.queue_below other e he).trans (Nat.lt_succ_self _)
    split_ifs with hsignal hwait
    · exact (hadded.trans (Shrinks.cancelWaiter _ _ _)).inOrder horder h.toGateSound.queue_below
    · refine Shrinks.inOrder ?_ (hinsert hsignal) hbelow
      exact Shrinks.trans (Shrinks.drain _ _ _) (Shrinks.cancelWaiter _ _ _)
    · exact (Shrinks.drain _ _ _).inOrder (hinsert hsignal) hbelow

theorem GateInv.enqueue_policy (h : GateInv g) (call : GateCall) :
    (g.enqueue call).policy = g.policy := by
  have hpolicy := (Shrinks.stateFor h.toGateSound (normalizeGateKey call.key)).policy
  unfold Gate.enqueue
  dsimp only
  generalize g.stateFor (normalizeGateKey call.key) = p at *
  split_ifs
  · rfl
  · exact (Shrinks.cancelWaiter _ _ _).policy.trans hpolicy
  · exact ((Shrinks.drain _ _ _).trans (Shrinks.cancelWaiter _ _ _)).policy.trans hpolicy
  · exact (Shrinks.drain _ _ _).policy.trans hpolicy

theorem GateInv.step_policy (h : GateInv g) (event : GateEvent) :
    (assetGateStep g event).policy = g.policy := by
  cases hcall : event.isCall with
  | false => exact (Shrinks.step g hcall).policy
  | true =>
    cases event with
    | runBlocking call => exact h.enqueue_policy _
    | runNonBlocking call => exact h.enqueue_policy _
    | abort | close | hookReturns | timeout | callTask | taskSettles | beforeReleaseSettles
    | cleanupMicrotask => cases hcall

/-- **The step.** -/
theorem GateInv.step_inOrder (h : GateInv g) (horder : g.QueuesInOrder) {event : GateEvent}
    (hkeeps : KeepsOrder g event) : (assetGateStep g event).QueuesInOrder := by
  cases hcall : event.isCall with
  | false => exact (Shrinks.step g hcall).inOrder horder h.toGateSound.queue_below
  | true =>
    cases event with
    | runBlocking call => exact h.enqueue_inOrder horder _ fun _ => hkeeps
    | runNonBlocking call => exact h.enqueue_inOrder horder _ fun hmode => by cases hmode
    | abort | close | hookReturns | timeout | callTask | taskSettles | beforeReleaseSettles
    | cleanupMicrotask => cases hcall

end Runs

/-- A gate of this policy whose queues are in order. -/
structure GateOrdered (policy : GatePolicy) (g : Gate) : Prop extends GateInv g where
  inOrder : g.QueuesInOrder
  policy : g.policy = policy

theorem gateOrdered_initial (policy : GatePolicy) (name : String) :
    GateOrdered policy { name := name, policy := policy } :=
  ⟨gateInv_initial policy name, fun _ => List.Pairwise.nil, rfl⟩

theorem gateOrdered_run {policy : GatePolicy} {g : Gate} {events : List GateEvent}
    (h : GateOrdered policy g) (hkeeps : Runs.Meets assetGateStep KeepsOrder g events) :
    GateOrdered policy (Runs.run assetGateStep g events) := by
  refine Runs.run_invariant (fun g event hinv hok => ?_) h hkeeps
  exact ⟨hinv.toGateInv.step event, hinv.toGateInv.step_inOrder hinv.inOrder hok,
    (hinv.toGateInv.step_policy event).trans hinv.policy⟩

/-- What the gate promises of the queues after a run: under `writer-priority` writers wait before
readers; and where a writer waits before one that came earlier, the two have not the same
priority, the earlier one has no positive priority if the later one has none, and it had not aged
when the later one came. -/
def QueuePolicy (policy : GatePolicy) (name : String) (events : List GateEvent) : Prop :=
  let g := Runs.run assetGateStep { name := name, policy := policy } events
  ∀ s, (g.heap s).queue.Pairwise (fun a b =>
    (policy = .writerPriority → (g.tasks b).mode = .blocking → (g.tasks a).mode = .blocking) ∧
    ((g.tasks a).mode = .blocking → (g.tasks b).mode = .blocking → b < a →
      ¬ ((g.tasks a).priority = 0 ∧ 0 < (g.tasks b).priority) ∧
      (g.tasks a).priority ≠ (g.tasks b).priority ∧
      ¬ priorityAgingMs ≤ (g.tasks a).requestedAt - (g.tasks b).requestedAt))

/-- **The queue policy.**  In every run whose prioritised writers are queued only where they fit,
under every policy, the queues are in order. -/
theorem gateQueue_policy (policy : GatePolicy) (name : String) (events : List GateEvent)
    (hkeeps : Runs.Meets assetGateStep KeepsOrder { name := name, policy := policy } events) :
    QueuePolicy policy name events := by
  have h := gateOrdered_run (gateOrdered_initial policy name) hkeeps
  unfold QueuePolicy
  intro g s
  refine (h.inOrder s).imp fun {a b} hab => ⟨fun hp => hab.1 (h.policy.trans hp), ?_⟩
  intro ha hb hlt
  obtain ⟨hpos, hne, hfresh⟩ := hab.2 ha hb hlt
  exact ⟨fun hzero => absurd hpos (by rw [hzero.1]; exact lt_irrefl 0), hne, not_le.mpr hfresh⟩

/-- A writer that runs, and a long and a short writer that wait for it. -/
theorem gateQueue_policy_fifo :
    Runs.Meets assetGateStep KeepsOrder { policy := .fifo }
      [.runBlocking { mode := .blocking }, .runBlocking { mode := .blocking },
        .runBlocking { mode := .blocking, priority := 1 }] ∧
    QueuePolicy .fifo "protected asset"
      [.runBlocking { mode := .blocking }, .runBlocking { mode := .blocking },
        .runBlocking { mode := .blocking, priority := 1 }] :=
  ⟨by decide, gateQueue_policy .fifo "protected asset" _ (by decide)⟩

/-- **A reader before a writer.**  Under `writer-priority` a writer with a priority joins the
queue behind a reader that waits for the active writer, and the next writer without one passes
both. -/
theorem gateQueue_behind_reader :
    ¬ QueuePolicy .writerPriority "protected asset"
      [.runBlocking { mode := .blocking }, .runNonBlocking { mode := .nonBlocking },
        .runBlocking { mode := .blocking, priority := 1 }] := by
  intro h
  have hqueue := h 0
  revert hqueue
  decide

end PosseClient
