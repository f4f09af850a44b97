/-
# When listeners see exactly the committed wakes

A notification made in a transaction waits in one list of the process, which
`runImmediateTransaction` alone flushes and clears.  What the listeners see is what was committed as
long as a transaction of the other kind commits no bump of its own, a managed transaction has not
lost a bump to a savepoint by the time it commits, and no emission starts while an earlier one has
calls left.

* `FramesOk` is about the open transactions and the generations they would go back to, `BumpsSound`
  about the bumps, `Delivering` about the listeners.
* `WakeOk` is the condition on a step; `wakes_not_committed` is what happens without it.
-/
import PosseClient.Lib.Runs
import PosseClient.Queue.Wakeups

namespace PosseClient

/-! ## 1. Open transactions -/

/-- Every generation of these payloads is reached by `base`. -/
def ReachedBy (base : ℕ) (payloads : List WakePayload) : Prop :=
  ∀ p ∈ payloads, p.generation ≤ base

/-- The open transactions agree with the first `n` open bumps: each would go back to a generation
that covers what it keeps, the outermost keeps none, and a managed one is outermost. -/
def FramesOk (committed opened : List WakePayload) : ℕ → List TxFrame → Prop
  | n, [] => n = 0
  | n, .plain :: rest => rest ≠ [] ∧ FramesOk committed opened n rest
  | _, .immediate base :: rest => rest = [] ∧ ReachedBy base committed
  | n, .transaction base mark :: rest =>
    mark ≤ n ∧ ReachedBy base (committed ++ opened.take mark) ∧
      FramesOk committed opened mark rest

section Frames

variable {committed opened opened' : List WakePayload} {n n' : ℕ} {frames : List TxFrame}

theorem FramesOk.mono (h : FramesOk committed opened n frames) (hle : n ≤ n')
    (hne : frames ≠ []) : FramesOk committed opened n' frames := by
  induction frames with
  | nil => exact absurd rfl hne
  | cons frame rest ih =>
    cases frame with
    | immediate base => exact h
    | transaction base mark => exact ⟨h.1.trans hle, h.2⟩
    | plain => exact ⟨h.1, ih h.2 h.1⟩

/-- Only the first `n` open bumps are read. -/
theorem FramesOk.congr (h : FramesOk committed opened n frames)
    (heq : ∀ k ≤ n, opened.take k = opened'.take k) : FramesOk committed opened' n frames := by
  induction frames generalizing n with
  | nil => exact h
  | cons frame rest ih =>
    cases frame with
    | immediate base => exact h
    | plain => exact ⟨h.1, ih h.2 heq⟩
    | transaction base mark =>
      have hrest : FramesOk committed opened' mark rest :=
        ih h.2.2 fun k hk => heq k (hk.trans h.1)
      have hbase : ReachedBy base (committed ++ opened'.take mark) := by
        rw [← heq mark h.1]
        exact h.2.1
      exact ⟨h.1, hbase, hrest⟩

/-- A new bump is kept by none of the open transactions. -/
theorem FramesOk.append (h : FramesOk committed opened opened.length frames)
    (hne : frames ≠ []) (p : WakePayload) :
    FramesOk committed (opened ++ [p]) (opened ++ [p]).length frames := by
  have hsame : FramesOk committed (opened ++ [p]) opened.length frames :=
    h.congr fun k hk => (List.take_append_of_le_length hk).symm
  exact hsame.mono (by simp) hne

/-- The transactions around one that rolls back to its mark. -/
theorem FramesOk.take (h : FramesOk committed opened n frames) (hn : n ≤ opened.length) :
    FramesOk committed (opened.take n) (opened.take n).length frames := by
  have hsame : FramesOk committed (opened.take n) n frames := by
    refine h.congr fun k hk => ?_
    rw [List.take_take, Nat.min_eq_left hk]
  rwa [List.length_take, Nat.min_eq_left hn]

end Frames

/-! ## 2. Bumps -/

/-- The generations of the bumps that are committed or open increase up to the one of the database,
and every open bump waits to be emitted. -/
structure BumpsSound (s : WakeState) : Prop where
  frames : FramesOk s.committed s.opened s.opened.length s.txs
  increasing : (s.committed ++ s.opened).Pairwise (·.generation < ·.generation)
  bounded : ReachedBy s.generation (s.committed ++ s.opened)
  deferred : s.opened.Sublist s.pendingEmits

section Bumps

variable {s t : WakeState} {listeners : List ℕ} {payloads : List WakePayload} {frame : TxFrame}
  {rest : List TxFrame} {base mark : ℕ} {args : WakeArgs} {ts : ℤ}

@[simp] theorem WakeState.emit_nil : s.emit listeners [] = s := rfl

/-- An emission changes nothing that the database has. -/
theorem BumpsSound.emit (h : BumpsSound s) : BumpsSound (s.emit listeners payloads) := by
  cases payloads with
  | nil => exact h
  | cons p later => exact ⟨h.frames, h.increasing, h.bounded, h.deferred⟩

/-- Only the database and the list of the process are read. -/
theorem BumpsSound.congr (h : BumpsSound s) (hgen : t.generation = s.generation)
    (htxs : t.txs = s.txs) (hopened : t.opened = s.opened) (hcommitted : t.committed = s.committed)
    (hpending : t.pendingEmits = s.pendingEmits) : BumpsSound t where
  frames := by rw [hcommitted, hopened, htxs]; exact h.frames
  increasing := by rw [hcommitted, hopened]; exact h.increasing
  bounded := by rw [hgen, hcommitted, hopened]; exact h.bounded
  deferred := by rw [hopened, hpending]; exact h.deferred

theorem BumpsSound.opened_eq_nil (h : BumpsSound s) (htxs : s.txs = []) : s.opened = [] := by
  have hframes : FramesOk s.committed s.opened s.opened.length s.txs := h.frames
  rw [htxs] at hframes
  exact List.length_eq_zero_iff.1 hframes

theorem ReachedBy.succ (h : ReachedBy base payloads) : ReachedBy (base + 1) payloads :=
  fun p hp => (h p hp).trans (Nat.le_succ base)

/-- The new payload has a generation above all others. -/
theorem BumpsSound.bump (h : BumpsSound s) (args : WakeArgs) (ts : ℤ) :
    (s.committed ++ s.opened ++ [args.payload (s.generation + 1) ts]).Pairwise
        (·.generation < ·.generation) ∧
      ReachedBy (s.generation + 1)
        (s.committed ++ s.opened ++ [args.payload (s.generation + 1) ts]) := by
  constructor
  · rw [List.pairwise_append]
    refine ⟨h.increasing, List.pairwise_singleton _ _, fun p hp q hq => ?_⟩
    have hle : p.generation ≤ s.generation := h.bounded p hp
    rw [List.mem_singleton.1 hq]
    exact Nat.lt_succ_of_le hle
  · intro p hp
    rcases List.mem_append.1 hp with
      hold
    | hnew
    · exact h.bounded.succ p hold
    · rw [List.mem_singleton.1 hnew]
      exact le_refl _

theorem BumpsSound.notify (h : BumpsSound s) :
    BumpsSound (s.notifyQueueStateChanged listeners args ts) := by
  have hbump := h.bump args ts
  unfold WakeState.notifyQueueStateChanged
  by_cases htx : s.inTransaction = true
  · have hne : s.txs ≠ [] := by simpa [WakeState.inTransaction] using htx
    rw [if_pos htx]
    refine ⟨h.frames.append hne _, ?_, ?_, h.deferred.append (List.Sublist.refl _)⟩
    · simpa using hbump.1
    · simpa using hbump.2
  · have hnil : s.txs = [] := by simpa [WakeState.inTransaction] using htx
    have hopened : s.opened = [] := h.opened_eq_nil hnil
    rw [if_neg htx]
    refine BumpsSound.emit ⟨?_, ?_, ?_, h.deferred⟩
    · simp [hnil, hopened, FramesOk]
    · simpa [hopened] using hbump.1
    · simpa [hopened] using hbump.2

/-- A transaction opens where the database is. -/
theorem BumpsSound.begin (h : BumpsSound s)
    (hframe : FramesOk s.committed s.opened s.opened.length (frame :: rest)) :
    BumpsSound { s with txs := frame :: rest } :=
  ⟨hframe, h.increasing, h.bounded, h.deferred⟩

theorem BumpsSound.commit (h : BumpsSound s) : BumpsSound s.commit where
  frames := rfl
  increasing := by simpa [WakeState.commit] using h.increasing
  bounded := by simpa [WakeState.commit] using h.bounded
  deferred := List.nil_sublist _

/-- After a rollback the bumps before the mark are left, and the generation covers them. -/
theorem BumpsSound.rollback (h : BumpsSound s)
    (hrest : FramesOk s.committed (s.opened.take mark) (s.opened.take mark).length rest)
    (hbase : ReachedBy base (s.committed ++ s.opened.take mark)) :
    BumpsSound (s.rollback rest base mark) where
  frames := hrest
  increasing := by
    refine h.increasing.sublist ?_
    exact (List.Sublist.refl _).append (List.take_sublist mark s.opened)
  bounded := hbase
  deferred := (List.take_sublist mark s.opened).trans h.deferred

/-- The list of the process may be emptied when no bump is open. -/
theorem BumpsSound.clear (h : BumpsSound s) (hopened : s.opened = []) :
    BumpsSound { s with pendingEmits := [] } :=
  ⟨h.frames, h.increasing, h.bounded, by simp [hopened]⟩

theorem BumpsSound.finish (h : BumpsSound s) (ok : Bool) : BumpsSound (s.finish listeners ok) := by
  have hframes : FramesOk s.committed s.opened s.opened.length s.txs := h.frames
  unfold WakeState.finish
  cases htxs : s.txs with
  | nil => exact h
  | cons frame rest =>
    rw [htxs] at hframes
    cases frame with
    | plain => exact ⟨hframes.2, h.increasing, h.bounded, h.deferred⟩
    | immediate base =>
      rcases hframes with ⟨hrest, hbase⟩
      subst hrest
      cases ok with
      | true => exact BumpsSound.emit (h.commit.clear rfl)
      | false =>
        have hback : BumpsSound (s.rollback [] base 0) :=
          h.rollback rfl (by simpa using hbase)
        exact hback.clear (by simp [WakeState.rollback])
    | transaction base mark =>
      rcases hframes with ⟨hmark, hbase, hrest⟩
      cases ok with
      | false => exact h.rollback (hrest.take hmark) hbase
      | true =>
        cases rest with
        | nil => exact h.commit
        | cons outer rest =>
          exact ⟨hrest.mono hmark (List.cons_ne_nil _ _), h.increasing, h.bounded, h.deferred⟩

theorem BumpsSound.deliver (h : BumpsSound s) : BumpsSound (s.deliver listeners) := by
  unfold WakeState.deliver
  cases s.emissions with
  | nil => exact h
  | cons e rest =>
    dsimp only
    split
    · exact h
    · cases e.waiting with
      | cons l waiting => exact h.congr rfl rfl rfl rfl rfl
      | nil =>
        cases e.later with
        | cons p later => exact h.congr rfl rfl rfl rfl rfl
        | nil => exact h.congr rfl rfl rfl rfl rfl

/-- No step breaks the bookkeeping of the bumps. -/
theorem BumpsSound.step (h : BumpsSound s) (op : WakeOp) :
    BumpsSound (wakeStep listeners s op) := by
  cases op with
  | notify args ts =>
    simp only [wakeStep]
    split
    · exact h.notify
    · exact h
  | runImmediateTransaction =>
    simp only [wakeStep]
    split
    · exact h
    · by_cases htx : s.inTransaction = true
      · have hne : s.txs ≠ [] := by simpa [WakeState.inTransaction] using htx
        rw [if_pos htx]
        exact h.begin ⟨hne, h.frames⟩
      · have hnil : s.txs = [] := by simpa [WakeState.inTransaction] using htx
        rw [if_neg htx]
        exact h.begin ⟨rfl, fun p hp => h.bounded p (List.mem_append_left _ hp)⟩
  | dbTransaction =>
    simp only [wakeStep]
    split
    · exact h.begin ⟨le_refl _, by simpa using h.bounded, h.frames⟩
    · exact h
  | finish ok => exact h.finish ok
  | deliver => exact h.deliver
  | listenerReturns =>
    simp only [wakeStep]
    cases s.emissions with
    | nil => exact h
    | cons e rest =>
      dsimp only
      split
      · exact h.congr rfl rfl rfl rfl rfl
      · exact h

end Bumps

/-! ## 3. Emissions -/

/-- What an emission has still to bring to a listener. -/
def WakeEmission.due (e : WakeEmission) (l : ℕ) : List WakePayload :=
  (if l ∈ e.waiting then [e.current] else []) ++ e.later

/-- The emission has no calls left. -/
def WakeEmission.IsDrained (e : WakeEmission) : Prop := e.waiting = [] ∧ e.later = []

instance (e : WakeEmission) : Decidable e.IsDrained :=
  inferInstanceAs (Decidable (e.waiting = [] ∧ e.later = []))

/-- No emission has calls left. -/
def WakeState.Drained (s : WakeState) : Prop := ∀ e ∈ s.emissions, e.IsDrained

instance (s : WakeState) : Decidable s.Drained :=
  inferInstanceAs (Decidable (∀ e ∈ s.emissions, e.IsDrained))

/-- Each listener has received the committed payloads up to those on their way to it, and only the
latest emission has calls left. -/
structure Delivering (listeners : List ℕ) (s : WakeState) : Prop where
  once : ∀ e ∈ s.emissions, e.waiting.Nodup
  below : ∀ e ∈ s.emissions.tail, e.IsDrained
  delivered : ∀ l ∈ listeners, s.received l ++ s.emissions.flatMap (·.due l) = s.committed

section Emissions

variable {s t : WakeState} {listeners : List ℕ} {payloads : List WakePayload} {e : WakeEmission}
  {l : ℕ}

theorem WakeEmission.IsDrained.due_eq_nil (h : e.IsDrained) : e.due l = [] := by
  simp [WakeEmission.due, h.1, h.2]

theorem flatMap_due_eq_nil {emissions : List WakeEmission} (h : ∀ e ∈ emissions, e.IsDrained) :
    emissions.flatMap (·.due l) = [] :=
  List.flatMap_eq_nil_iff.2 fun e he => (h e he).due_eq_nil

theorem WakeEmission.due_start {payload : WakePayload} {later : List WakePayload} {running : Bool}
    (hl : l ∈ listeners) :
    WakeEmission.due ⟨payload, later, listeners, running⟩ l = payload :: later := by
  simp [WakeEmission.due, hl]

theorem Delivering.congr (h : Delivering listeners s) (hemissions : t.emissions = s.emissions)
    (hreceived : t.received = s.received) (hcommitted : t.committed = s.committed) :
    Delivering listeners t where
  once := by rw [hemissions]; exact h.once
  below := by rw [hemissions]; exact h.below
  delivered := by rw [hemissions, hreceived, hcommitted]; exact h.delivered

/-- An emission of what has just been committed, when those before it have no calls left. -/
theorem Delivering.emit (hnodup : listeners.Nodup) (h : Delivering listeners s)
    (hdrained : payloads ≠ [] → s.Drained) (hemissions : t.emissions = s.emissions)
    (hreceived : t.received = s.received) (hcommitted : t.committed = s.committed ++ payloads) :
    Delivering listeners (t.emit listeners payloads) := by
  cases payloads with
  | nil => exact h.congr hemissions hreceived (by simpa using hcommitted)
  | cons payload later =>
    have hall : ∀ e ∈ s.emissions, e.IsDrained := hdrained (List.cons_ne_nil _ _)
    refine ⟨?_, ?_, ?_⟩
    · intro e he
      rcases List.mem_cons.1 he with
        rfl
      | hold
      · exact hnodup
      · exact h.once e (hemissions ▸ hold)
    · intro e he
      exact hall e (hemissions ▸ he)
    · intro l hl
      have hprev : s.received l = s.committed := by
        simpa [flatMap_due_eq_nil hall] using h.delivered l hl
      simp only [WakeState.emit, List.flatMap_cons, hemissions, hreceived, hcommitted,
        flatMap_due_eq_nil hall, WakeEmission.due_start hl, hprev, List.append_nil]

/-- The call of the next listener, which then has one payload more. -/
theorem Delivering.call {waiting : List ℕ} {rest : List WakeEmission}
    (h : Delivering listeners s) (hs : s.emissions = e :: rest) (hw : e.waiting = l :: waiting) :
    Delivering listeners { s with
      emissions := { e with waiting := waiting, running := true } :: rest
      received := Function.update s.received l (s.received l ++ [e.current]) } := by
  have hnodup : (l :: waiting).Nodup := hw ▸ h.once e (hs ▸ List.mem_cons_self)
  have hbelow : ∀ e' ∈ rest, e'.IsDrained := fun e' he' =>
    h.below e' (by rw [hs]; exact he')
  have hdel : ∀ l' ∈ listeners, s.received l' ++ e.due l' = s.committed := fun l' hl' => by
    simpa [hs, flatMap_due_eq_nil hbelow] using h.delivered l' hl'
  refine ⟨?_, hbelow, ?_⟩
  · intro e' he'
    rcases List.mem_cons.1 he' with
      rfl
    | hold
    · exact (List.nodup_cons.1 hnodup).2
    · exact h.once e' (hs ▸ List.mem_cons_of_mem _ hold)
  · intro l' hl'
    have hprev := hdel l' hl'
    simp only [List.flatMap_cons, flatMap_due_eq_nil hbelow, List.append_nil]
    by_cases hself : l' = l
    · subst hself
      have hleft : l' ∉ waiting := (List.nodup_cons.1 hnodup).1
      simpa [WakeEmission.due, hw, hleft] using hprev
    · simpa [WakeEmission.due, hw, hself, Function.update_of_ne hself] using hprev

/-- The next payload, for which every listener waits. -/
theorem Delivering.next {payload : WakePayload} {later : List WakePayload}
    {rest : List WakeEmission} (hnodup : listeners.Nodup) (h : Delivering listeners s)
    (hs : s.emissions = e :: rest) (hw : e.waiting = []) (hlater : e.later = payload :: later) :
    Delivering listeners { s with emissions := ⟨payload, later, listeners, false⟩ :: rest } := by
  have hbelow : ∀ e' ∈ rest, e'.IsDrained := fun e' he' =>
    h.below e' (by rw [hs]; exact he')
  refine ⟨?_, hbelow, ?_⟩
  · intro e' he'
    rcases List.mem_cons.1 he' with
      rfl
    | hold
    · exact hnodup
    · exact h.once e' (hs ▸ List.mem_cons_of_mem _ hold)
  · intro l hl
    have hprev : s.received l ++ e.due l = s.committed := by
      simpa [hs, flatMap_due_eq_nil hbelow] using h.delivered l hl
    rw [List.flatMap_cons, flatMap_due_eq_nil hbelow, List.append_nil, WakeEmission.due_start hl]
    simpa [WakeEmission.due, hw, hlater] using hprev

/-- The end of an emission with no calls left. -/
theorem Delivering.done {rest : List WakeEmission} (h : Delivering listeners s)
    (hs : s.emissions = e :: rest) (hdrained : e.IsDrained) :
    Delivering listeners { s with emissions := rest } := by
  refine ⟨?_, ?_, ?_⟩
  · intro e' he'
    exact h.once e' (hs ▸ List.mem_cons_of_mem _ he')
  · intro e' he'
    refine h.below e' ?_
    rw [hs]
    exact List.mem_of_mem_tail he'
  · intro l hl
    have hprev := h.delivered l hl
    simpa [hs, hdrained.due_eq_nil] using hprev

theorem Delivering.deliver (hnodup : listeners.Nodup) (h : Delivering listeners s) :
    Delivering listeners (s.deliver listeners) := by
  unfold WakeState.deliver
  cases hs : s.emissions with
  | nil => exact h
  | cons e rest =>
    dsimp only
    split
    · exact h
    · cases hw : e.waiting with
      | cons l waiting => exact h.call hs hw
      | nil =>
        cases hlater : e.later with
        | cons payload later => exact h.next hnodup hs hw hlater
        | nil => exact h.done hs ⟨hw, hlater⟩

/-- A listener that returns leaves the calls of its emission as they are. -/
theorem Delivering.returns {rest : List WakeEmission} (h : Delivering listeners s)
    (hs : s.emissions = e :: rest) :
    Delivering listeners { s with emissions := { e with running := false } :: rest } := by
  refine ⟨?_, ?_, ?_⟩
  · intro e' he'
    rcases List.mem_cons.1 he' with
      rfl
    | hold
    · exact h.once e (hs ▸ List.mem_cons_self)
    · exact h.once e' (hs ▸ List.mem_cons_of_mem _ hold)
  · intro e' he'
    exact h.below e' (by rw [hs]; exact he')
  · intro l hl
    have hprev := h.delivered l hl
    simpa [hs, WakeEmission.due] using hprev

end Emissions

/-! ## 4. The condition -/

/-- The innermost transaction is managed, hence outermost. -/
def WakeState.endsManaged (s : WakeState) : Bool :=
  match s.txs with
  | .immediate _ :: _ => true
  | _ => false

/-- The innermost transaction is a `db.transaction` and outermost. -/
def WakeState.endsUnmanaged (s : WakeState) : Bool :=
  match s.txs with
  | [.transaction _ _] => true
  | _ => false

/-- A managed transaction commits every bump whose notification waits in the list of the process; a
`db.transaction` that is outermost commits none; an emission starts when those before it have no
calls left. -/
def WakeOk (s : WakeState) : WakeOp → Prop
  | .notify _ _ => s.codeRuns = true → s.txs = [] → s.Drained
  | .finish ok => ok = true →
      (s.endsManaged = true →
        s.pendingEmits.length = s.opened.length ∧ (s.pendingEmits ≠ [] → s.Drained)) ∧
      (s.endsUnmanaged = true → s.opened = [])
  | _ => True

instance WakeOk.decidable (s : WakeState) : ∀ op, Decidable (WakeOk s op)
  | .notify _ _ => inferInstanceAs (Decidable (s.codeRuns = true → s.txs = [] → s.Drained))
  | .finish ok => inferInstanceAs (Decidable (ok = true →
      (s.endsManaged = true →
        s.pendingEmits.length = s.opened.length ∧ (s.pendingEmits ≠ [] → s.Drained)) ∧
      (s.endsUnmanaged = true → s.opened = [])))
  | .runImmediateTransaction => inferInstanceAs (Decidable True)
  | .dbTransaction => inferInstanceAs (Decidable True)
  | .deliver => inferInstanceAs (Decidable True)
  | .listenerReturns => inferInstanceAs (Decidable True)

/-! ## 5. Delivery -/

section Delivery

variable {s : WakeState} {listeners : List ℕ} {args : WakeArgs} {ts : ℤ} {ok : Bool}

theorem Delivering.notify (hnodup : listeners.Nodup) (h : Delivering listeners s)
    (hok : s.txs = [] → s.Drained) :
    Delivering listeners (s.notifyQueueStateChanged listeners args ts) := by
  unfold WakeState.notifyQueueStateChanged
  by_cases htx : s.inTransaction = true
  · rw [if_pos htx]
    exact h.congr rfl rfl rfl
  · have hnil : s.txs = [] := by simpa [WakeState.inTransaction] using htx
    rw [if_neg htx]
    exact h.emit hnodup (fun _ => hok hnil) rfl rfl rfl

theorem Delivering.finish (hnodup : listeners.Nodup) (h : Delivering listeners s)
    (hbumps : BumpsSound s) (hok : WakeOk s (.finish ok)) :
    Delivering listeners (s.finish listeners ok) := by
  unfold WakeState.finish
  cases htxs : s.txs with
  | nil => exact h
  | cons frame rest =>
    cases frame with
    | plain => exact h.congr rfl rfl rfl
    | immediate base =>
      cases ok with
      | false => exact h.congr rfl rfl rfl
      | true =>
        have hmanaged : s.endsManaged = true := by simp [WakeState.endsManaged, htxs]
        rcases (hok rfl).1 hmanaged with ⟨hlength, hdrained⟩
        -- the list of the process is the list of the open bumps
        have heq : s.opened = s.pendingEmits := hbumps.deferred.eq_of_length hlength.symm
        exact h.emit hnodup hdrained rfl rfl (congrArg (s.committed ++ ·) heq)
    | transaction base mark =>
      cases ok with
      | false => exact h.congr rfl rfl rfl
      | true =>
        cases rest with
        | cons outer rest => exact h.congr rfl rfl rfl
        | nil =>
          have hunmanaged : s.endsUnmanaged = true := by simp [WakeState.endsUnmanaged, htxs]
          have hopened : s.opened = [] := (hok rfl).2 hunmanaged
          exact h.congr rfl rfl (by simp [WakeState.commit, hopened])

theorem Delivering.step (hnodup : listeners.Nodup) (h : Delivering listeners s)
    (hbumps : BumpsSound s) (op : WakeOp) (hok : WakeOk s op) :
    Delivering listeners (wakeStep listeners s op) := by
  cases op with
  | notify args ts =>
    simp only [wakeStep]
    split
    · next hruns => exact h.notify hnodup (hok hruns)
    · exact h
  | runImmediateTransaction =>
    simp only [wakeStep]
    split
    · exact h
    · split
      · exact h.congr rfl rfl rfl
      · exact h.congr rfl rfl rfl
  | dbTransaction =>
    simp only [wakeStep]
    split
    · exact h.congr rfl rfl rfl
    · exact h
  | finish ok => exact h.finish hnodup hbumps hok
  | deliver => exact h.deliver hnodup
  | listenerReturns =>
    simp only [wakeStep]
    cases hs : s.emissions with
    | nil => exact h
    | cons e rest =>
      dsimp only
      split
      · exact h.returns hs
      · exact h

end Delivery

/-- **Listeners see the committed wakes.**  In every run that meets the condition, the generations
of the committed wakes increase, each listener has received the first of them, each once and in
order, and all of them when no emission is under way. -/
theorem committed_wakes_delivered (listeners : List ℕ) (hnodup : listeners.Nodup)
    (generation : ℕ) (ops : List WakeOp)
    (hm : Runs.Meets (wakeStep listeners) WakeOk { generation := generation } ops) :
    (Runs.run (wakeStep listeners) { generation := generation } ops).committed.Pairwise
        (·.generation < ·.generation) ∧
      ∀ l ∈ listeners,
        (Runs.run (wakeStep listeners) { generation := generation } ops).received l <+:
            (Runs.run (wakeStep listeners) { generation := generation } ops).committed ∧
          ((Runs.run (wakeStep listeners) { generation := generation } ops).emissions = [] →
            (Runs.run (wakeStep listeners) { generation := generation } ops).received l =
              (Runs.run (wakeStep listeners) { generation := generation } ops).committed) := by
  have hstep : ∀ s op, BumpsSound s ∧ Delivering listeners s → WakeOk s op →
      BumpsSound (wakeStep listeners s op) ∧ Delivering listeners (wakeStep listeners s op) :=
    fun s op h hok => ⟨h.1.step op, h.2.step hnodup h.1 op hok⟩
  have hbumps : BumpsSound { generation := generation } :=
    ⟨rfl, List.Pairwise.nil, fun _ hp => absurd hp List.not_mem_nil, List.nil_sublist _⟩
  have hdelivering : Delivering listeners { generation := generation } :=
    ⟨fun _ he => absurd he List.not_mem_nil, fun _ he => absurd he List.not_mem_nil,
      fun _ _ => rfl⟩
  rcases Runs.run_invariant hstep ⟨hbumps, hdelivering⟩ hm with ⟨hb, hd⟩
  refine ⟨(List.pairwise_append.1 hb.increasing).1, fun l hl => ⟨⟨_, hd.delivered l hl⟩, ?_⟩⟩
  intro hquiet
  simpa [hquiet] using hd.delivered l hl

theorem committed_wakes_delivered_nested :
    [0, 1].Nodup ∧ Runs.Meets (wakeStep [0, 1]) WakeOk { generation := 3 }
        [.runImmediateTransaction, .notify { reason := "job_created", jobId := some 7 } 20,
          .dbTransaction, .finish true, .finish true, .deliver, .listenerReturns, .deliver,
          .listenerReturns, .deliver, .notify {} 30] ∧
      (Runs.run (wakeStep [0, 1]) { generation := 3 }
        [.runImmediateTransaction, .notify { reason := "job_created", jobId := some 7 } 20,
          .dbTransaction, .finish true, .finish true, .deliver, .listenerReturns, .deliver,
          .listenerReturns, .deliver, .notify {} 30]).received 1 <+:
        (Runs.run (wakeStep [0, 1]) { generation := 3 }
        [.runImmediateTransaction, .notify { reason := "job_created", jobId := some 7 } 20,
          .dbTransaction, .finish true, .finish true, .deliver, .listenerReturns, .deliver,
          .listenerReturns, .deliver, .notify {} 30]).committed := by
  have hmeets : Runs.Meets (wakeStep [0, 1]) WakeOk { generation := 3 }
      [.runImmediateTransaction, .notify { reason := "job_created", jobId := some 7 } 20,
        .dbTransaction, .finish true, .finish true, .deliver, .listenerReturns, .deliver,
        .listenerReturns, .deliver, .notify {} 30] := by
    decide
  exact ⟨by decide, hmeets,
    ((committed_wakes_delivered [0, 1] (by decide) 3 _ hmeets).2 1 (by decide)).1⟩

/-- Without the condition: a wake whose savepoint rolled back is received, a wake that an outermost
`db.transaction` committed is not, and a notification of the first listener reaches the second one
before the wake it answers. -/
theorem wakes_not_committed :
    ((Runs.run (wakeStep [0]) {}
        [.runImmediateTransaction, .dbTransaction, .notify { reason := "job_created" } 20,
          .finish false, .finish true, .deliver, .listenerReturns, .deliver]).received 0 =
        [⟨1, "job_created", none, none, none, none, 20⟩] ∧
      (Runs.run (wakeStep [0]) {}
        [.runImmediateTransaction, .dbTransaction, .notify { reason := "job_created" } 20,
          .finish false, .finish true, .deliver, .listenerReturns, .deliver]).committed = []) ∧
    ((Runs.run (wakeStep [0]) {}
        [.dbTransaction, .notify { reason := "job_created" } 20, .finish true]).committed =
        [⟨1, "job_created", none, none, none, none, 20⟩] ∧
      (Runs.run (wakeStep [0]) {}
        [.dbTransaction, .notify { reason := "job_created" } 20, .finish true]).emissions = [] ∧
      (Runs.run (wakeStep [0]) {}
        [.dbTransaction, .notify { reason := "job_created" } 20, .finish true]).received 0 = []) ∧
    ((Runs.run (wakeStep [0, 1]) {}
        [.notify { reason := "job_created" } 20, .deliver, .notify {} 21, .deliver,
          .listenerReturns, .deliver, .listenerReturns, .deliver, .listenerReturns, .deliver,
          .listenerReturns, .deliver]).received 1).map (·.generation) = [2, 1] := by
  decide +kernel

end PosseClient
