/-
# The stages of a run

A run is undecided; or its outcome is decided and it waits for a `terminate()` call, or for the
worker to exit within a grace period; or it is over.  Every event keeps a run in its stage or takes
it to a later one, and the outcome of the later stages is that of the first terminal event.

* `terminalOutcome`: what an event says about the outcome, told without the state of the run.
* `WorkerRun.Stage`: the four stages; `stage_step` is the step lemma.
* `WorkerRun.ThreadOver`: the worker has exited or a `terminate()` call has settled;
  `step_keeps`: nothing takes the worker out of the registry before.
* `RunScene.EntryKept`: the lifetime slot is held as long as the worker is registered.
-/
import PosseClient.Concurrency.ThreadRuns

namespace PosseClient

open RunScene

variable {V : Type*}

/-! ## 1. Terminal events -/

/-- **The outcome a terminal event stands for**: a result, an error message, an error, an exit, an
abort of the signal the run was given, and the timeout it armed. -/
def terminalOutcome (request : RunRequest V) : RunScene.Event V → Option (RunOutcome V)
  | .message message => messageOutcome request.label message
  | .error err => some (errorOutcome request.label err)
  | .exit code => some (exitOutcome request.label code)
  | .abort reason =>
    if request.signal.isSome then some (abortOutcome request.label reason) else none
  | .timeout => request.maxMs.map (timeoutOutcome request.label)
  | _ => none

namespace WorkerRun

/-! ## 2. The stages -/

/-- No outcome is decided. -/
structure Undecided (run : WorkerRun V) : Prop where
  settled : run.settled = false
  exitEmitted : run.exitEmitted = false
  exitListeners : run.exitListeners = [.retire, .onExit]
  messageListening : run.messageListening = true
  errorListening : run.errorListening = true
  timer : run.timer = run.request.maxMs.isSome
  abortListening : run.abortListening = run.request.signal.isSome
  done : run.done = false
  endTimer : run.endTimer = none
  calls : run.calls = []
  settlements : run.settlements = []

/-- An outcome is decided: `finish` has gone past its guard. -/
structure Decided (run : WorkerRun V) : Prop where
  settled : run.settled = true
  timer : run.timer = false
  abortListening : run.abortListening = false
  messageListening : run.messageListening = false

/-- The promise waits for the `terminate()` call of `finish`. -/
structure Terminating (run : WorkerRun V) (outcome : RunOutcome V) : Prop extends
    Decided run where
  exitListeners : run.exitListeners = [.retire, .onExit] ∨ run.exitListeners = [.onExit]
  endTimer : run.endTimer = none
  calls : ∃ resolved, run.calls = [⟨.settle outcome, resolved, false⟩]
  settlements : run.settlements = []

/-- The promise waits for the worker to exit, or for the `terminate()` call made when the grace
period ends. -/
structure Grace (run : WorkerRun V) (outcome : RunOutcome V) : Prop extends Decided run where
  exitListeners : run.exitListeners = [.retire, .onExit, .complete outcome]
  done : run.done = false
  waiting : (run.endTimer = some outcome ∧ run.calls = []) ∨
    (run.endTimer = none ∧ ∃ resolved, run.calls = [⟨.complete outcome, resolved, false⟩])
  settlements : run.settlements = []

/-- The promise has settled. -/
structure Over (run : WorkerRun V) (outcome : RunOutcome V) : Prop extends Decided run where
  exitListeners : run.exitListeners = []
  endTimer : run.endTimer = none
  calls : ∀ call ∈ run.calls, call.continued = true ∨
    run.done = true ∧ ∃ outcome', call.next = .complete outcome'
  registered : run.registered = false
  settlements : run.settlements = [outcome]

/-- **The stages**, with the outcome of the first terminal event. -/
inductive Stage (run : WorkerRun V) : Option (RunOutcome V) → Prop
  | undecided (h : run.Undecided) : Stage run none
  | terminating {outcome : RunOutcome V} (h : run.Terminating outcome) : Stage run (some outcome)
  | grace {outcome : RunOutcome V} (h : run.Grace outcome) : Stage run (some outcome)
  | finished {outcome : RunOutcome V} (h : run.Over outcome) : Stage run (some outcome)

end WorkerRun

/-! ## 3. `finish` and `complete` -/

open WorkerRun

/-- **The first terminal event decides**, and the promise waits for the thread. -/
theorem stage_finish {s : RunScene V} (hsettled : s.run.settled = false)
    (hlisteners : s.run.exitListeners = [.retire, .onExit]) (hdone : s.run.done = false)
    (hendTimer : s.run.endTimer = none) (hcalls : s.run.calls = [])
    (hsettlements : s.run.settlements = []) (outcome : RunOutcome V) (naturalExit : Bool) :
    (finish outcome true naturalExit s).run.Stage (some outcome) := by
  unfold finish
  simp only [hsettled, Bool.not_true, Bool.false_eq_true, if_false]
  split_ifs
  · apply Stage.grace
    constructor <;> simp [*, Decided.mk]
  · apply Stage.terminating
    constructor <;> simp [*, terminate, Decided.mk]
  · apply Stage.grace
    constructor <;> simp [*, Decided.mk]

/-- **`complete` settles**, the first time it is called. -/
theorem over_complete {s : RunScene V} {outcome : RunOutcome V} (hdecided : s.run.Decided)
    (hdone : s.run.done = false)
    (hcalls : ∀ call ∈ s.run.calls, call.continued = true ∨
      ∃ outcome', call.next = .complete outcome')
    (hsettlements : s.run.settlements = []) :
    (complete outcome s).run.Over outcome := by
  unfold complete
  rw [if_neg (by simp [hdone])]
  refine ⟨⟨hdecided.settled, rfl, rfl, rfl⟩, rfl, rfl, ?_, rfl, ?_⟩
  · intro call hcall
    rcases hcalls call hcall with h | h
    · exact Or.inl h
    · exact Or.inr ⟨rfl, h⟩
  · simp [settle, cleanup, RunScene.retire, hsettlements]

/-! ## 4. The events -/

variable {s : RunScene V} {first : Option (RunOutcome V)}

/-- A run is undecided, or its outcome is the one that was decided. -/
theorem WorkerRun.Stage.decided_or {run : WorkerRun V} (h : run.Stage first) :
    (first = none ∧ run.Undecided) ∨ ∃ outcome, first = some outcome ∧ run.Decided := by
  cases h with
  | undecided h => exact Or.inl ⟨rfl, h⟩
  | terminating h => exact Or.inr ⟨_, rfl, h.toDecided⟩
  | grace h => exact Or.inr ⟨_, rfl, h.toDecided⟩
  | finished h => exact Or.inr ⟨_, rfl, h.toDecided⟩

/-- What the stages do not speak of: the drains, the observers, and a worker that leaves the
registry. -/
theorem WorkerRun.Stage.aside {run : WorkerRun V} (h : run.Stage first) {registered : Bool}
    (hregistered : registered = run.registered ∨ registered = false) (exited : Bool)
    (drainCalls : List (TerminateCall ℕ)) (progress : List V) (unhandled : ℕ) :
    { run with
      registered := registered, exited := exited, drainCalls := drainCalls,
      progress := progress, unhandled := unhandled }.Stage first := by
  cases h with
  | undecided h =>
    exact Stage.undecided ⟨h.settled, h.exitEmitted, h.exitListeners, h.messageListening,
      h.errorListening, h.timer, h.abortListening, h.done, h.endTimer, h.calls, h.settlements⟩
  | terminating h =>
    exact Stage.terminating ⟨⟨h.settled, h.timer, h.abortListening, h.messageListening⟩,
      h.exitListeners, h.endTimer, h.calls, h.settlements⟩
  | grace h =>
    exact Stage.grace ⟨⟨h.settled, h.timer, h.abortListening, h.messageListening⟩,
      h.exitListeners, h.done, h.waiting, h.settlements⟩
  | finished h =>
    have hgone : registered = false := by
      rcases hregistered with hsame | hfalse
      · exact hsame.trans h.registered
      · exact hfalse
    exact Stage.finished ⟨⟨h.settled, h.timer, h.abortListening, h.messageListening⟩,
      h.exitListeners, h.endTimer, h.calls, hgone, h.settlements⟩

theorem WorkerRun.Undecided.finish (h : s.run.Undecided) (outcome : RunOutcome V)
    (naturalExit : Bool) :
    (RunScene.finish outcome true naturalExit s).run.Stage (some outcome) :=
  stage_finish h.settled h.exitListeners h.done h.endTimer h.calls h.settlements outcome
    naturalExit

theorem stage_message (h : s.run.Stage first) (message : ThreadMessage V) :
    (s.step (.message message)).run.Stage
      (first.or (terminalOutcome s.run.request (.message message))) := by
  rcases h.decided_or with ⟨rfl, hopen⟩ | ⟨outcome, rfl, hdecided⟩
  · simp only [step, hopen.exitEmitted, hopen.messageListening, Bool.not_true, Bool.or_self,
      Bool.false_eq_true, if_false, Option.none_or]
    cases message with
    | progress event =>
      exact h.aside (Or.inl rfl) _ _ _ _
    | result value => exact hopen.finish _ _
    | error payload => exact hopen.finish _ _
    | other => exact h
  · simp only [step, hdecided.messageListening, Bool.not_false, Bool.or_true, if_true,
      Option.some_or]
    exact h

theorem stage_error (h : s.run.Stage first) (err : WorkerError V) :
    (s.step (.error err)).run.Stage
      (first.or (terminalOutcome s.run.request (.error err))) := by
  rcases h.decided_or with ⟨rfl, hopen⟩ | ⟨outcome, rfl, hdecided⟩
  · simp only [step, hopen.exitEmitted, hopen.errorListening, Bool.false_eq_true, if_false, if_true,
      Option.none_or]
    unfold onError
    rw [if_neg (by simp [hopen.settled])]
    exact hopen.finish _ _
  · simp only [step, Option.some_or]
    split_ifs
    · exact h
    · unfold onError
      rw [if_pos hdecided.settled]
      exact h
    · exact h.aside (Or.inl rfl) _ _ _ _

theorem stage_abort (h : s.run.Stage first) (reason : AbortReason V) :
    (s.step (.abort reason)).run.Stage
      (first.or (terminalOutcome s.run.request (.abort reason))) := by
  rcases h.decided_or with ⟨rfl, hopen⟩ | ⟨outcome, rfl, hdecided⟩
  · simp only [step, terminalOutcome, hopen.abortListening, Option.none_or]
    split_ifs
    · exact stage_finish (s := { s with run := { s.run with abortListening := false } })
        hopen.settled hopen.exitListeners hopen.done hopen.endTimer hopen.calls
        hopen.settlements _ _
    · exact h
  · simp only [step, hdecided.abortListening, Bool.false_eq_true, if_false, Option.some_or]
    exact h

theorem stage_timeout (h : s.run.Stage first) :
    (s.step .timeout).run.Stage (first.or (terminalOutcome s.run.request .timeout)) := by
  simp only [step, terminalOutcome]
  cases hmax : s.run.request.maxMs with
  | none => simpa using h
  | some maxMs =>
    rcases h.decided_or with ⟨rfl, hopen⟩ | ⟨outcome, rfl, hdecided⟩
    · have htimer : s.run.timer = true := by simp [hopen.timer, hmax]
      simp only [htimer, if_true, Option.none_or, Option.map_some]
      exact stage_finish (s := { s with run := { s.run with timer := false } })
        hopen.settled hopen.exitListeners hopen.done hopen.endTimer hopen.calls
        hopen.settlements _ _
    · simp only [hdecided.timer, Bool.false_eq_true, if_false, Option.some_or]
      exact h

theorem stage_endTimer (h : s.run.Stage first) : (s.step .endTimer).run.Stage first := by
  simp only [step]
  cases htimer : s.run.endTimer with
  | none => exact h
  | some outcome =>
    cases h with
    | undecided h => exact absurd (htimer.symm.trans h.endTimer) (by simp)
    | terminating h => exact absurd (htimer.symm.trans h.endTimer) (by simp)
    | grace h =>
      rcases h.waiting with ⟨hsome, hcalls⟩ | ⟨hnone, -⟩
      · obtain rfl : outcome = _ := Option.some.inj (htimer.symm.trans hsome)
        refine Stage.grace ⟨⟨h.settled, h.timer, h.abortListening, h.messageListening⟩,
          h.exitListeners, h.done, Or.inr ⟨rfl, none, ?_⟩, h.settlements⟩
        simp [terminate, hcalls]
      · exact absurd (htimer.symm.trans hnone) (by simp)
    | finished h => exact absurd (htimer.symm.trans h.endTimer) (by simp)

/-- **An exit ends every stage but that of a `terminate()` call**, which goes on waiting for its
promise. -/
theorem stage_exit (h : s.run.Stage first) (code : ℤ) :
    (s.step (.exit code)).run.Stage
      (first.or (terminalOutcome s.run.request (.exit code))) := by
  simp only [step]
  cases h with
  | undecided h =>
    simp only [h.exitEmitted, Bool.false_eq_true, if_false, Option.none_or, terminalOutcome]
    simp only [emitExit, h.exitListeners, List.foldl_cons, List.foldl_nil, callExitListener,
      RunScene.retire, onExit, h.settled, RunScene.finish, Bool.false_eq_true, if_false,
      Bool.not_false, if_true, settle]
    refine Stage.finished ⟨⟨rfl, rfl, rfl, rfl⟩, rfl, h.endTimer, ?_, rfl, ?_⟩
    · simp [h.calls]
    · simp [h.settlements]
  | terminating h =>
    split_ifs with hexit
    · exact Stage.terminating h
    · rcases h.exitListeners with hlisteners | hlisteners
      · simp only [emitExit, hlisteners, List.foldl_cons, List.foldl_nil, callExitListener,
          RunScene.retire, onExit, h.settled, if_true, Option.some_or]
        exact Stage.terminating ⟨⟨rfl, h.timer, h.abortListening, h.messageListening⟩,
          Or.inr rfl, h.endTimer, h.calls, h.settlements⟩
      · simp only [emitExit, hlisteners, List.foldl_cons, List.foldl_nil, callExitListener,
          onExit, h.settled, if_true, Option.some_or]
        exact Stage.terminating ⟨⟨rfl, h.timer, h.abortListening, h.messageListening⟩,
          Or.inr rfl, h.endTimer, h.calls, h.settlements⟩
  | grace h =>
    split_ifs with hexit
    · exact Stage.grace h
    · simp only [emitExit, h.exitListeners, List.foldl_cons, List.foldl_nil, callExitListener,
        RunScene.retire, onExit, h.settled, if_true, Option.some_or]
      refine Stage.finished (over_complete ⟨rfl, h.timer, h.abortListening,
        h.messageListening⟩ h.done ?_ h.settlements)
      intro call hcall
      rcases h.waiting with ⟨-, hcalls⟩ | ⟨-, resolved, hcalls⟩
      · simp [hcalls] at hcall
      · simp only [hcalls, List.mem_singleton] at hcall
        exact Or.inr ⟨_, by rw [hcall]⟩
  | finished h =>
    split_ifs with hexit
    · exact Stage.finished h
    · simp only [emitExit, h.exitListeners, List.foldl_nil, Option.some_or]
      exact Stage.finished ⟨⟨h.settled, h.timer, h.abortListening, h.messageListening⟩,
        rfl, h.endTimer, h.calls, h.registered, h.settlements⟩

theorem modify_singleton {α : Type*} (a : α) (i : ℕ) (f : α → α) :
    [a].modify i f = [if i = 0 then f a else a] := by
  cases i with
  | zero => rfl
  | succ i => simp

theorem stage_terminateSettles (h : s.run.Stage first) (call : ℕ) (resolves : Bool) :
    (s.step (.terminateSettles call resolves)).run.Stage first := by
  have hsettle : ∀ (next : AfterTerminate V) (resolved : Option Bool),
      ∃ resolved', (if call = 0 then settleCall resolves ⟨next, resolved, false⟩
        else ⟨next, resolved, false⟩) = (⟨next, resolved', false⟩ : TerminateCall _) := by
    intro next resolved
    unfold settleCall
    split_ifs
    · exact ⟨_, rfl⟩
    · exact ⟨_, rfl⟩
    · exact ⟨_, rfl⟩
  simp only [step]
  cases h with
  | undecided h =>
    exact Stage.undecided ⟨h.settled, h.exitEmitted, h.exitListeners, h.messageListening,
      h.errorListening, h.timer, h.abortListening, h.done, h.endTimer, by simp [h.calls],
      h.settlements⟩
  | terminating h =>
    obtain ⟨resolved, hcalls⟩ := h.calls
    obtain ⟨resolved', hresolved'⟩ := hsettle (.settle _) resolved
    refine Stage.terminating ⟨⟨h.settled, h.timer, h.abortListening, h.messageListening⟩,
      h.exitListeners, h.endTimer, ⟨resolved', ?_⟩, h.settlements⟩
    rw [hcalls, modify_singleton, hresolved']
  | grace h =>
    refine Stage.grace ⟨⟨h.settled, h.timer, h.abortListening, h.messageListening⟩,
      h.exitListeners, h.done, ?_, h.settlements⟩
    rcases h.waiting with ⟨htimer, hcalls⟩ | ⟨htimer, resolved, hcalls⟩
    · exact Or.inl ⟨htimer, by simp [hcalls]⟩
    · obtain ⟨resolved', hresolved'⟩ := hsettle (.complete _) resolved
      exact Or.inr ⟨htimer, resolved', by rw [hcalls, modify_singleton, hresolved']⟩
  | finished h =>
    refine Stage.finished ⟨⟨h.settled, h.timer, h.abortListening, h.messageListening⟩,
      h.exitListeners, h.endTimer, ?_, h.registered, h.settlements⟩
    intro entry hentry
    obtain ⟨i, hi⟩ := List.mem_iff_getElem?.mp hentry
    rw [List.getElem?_modify] at hi
    obtain ⟨old, hold, rfl⟩ := Option.map_eq_some_iff.mp hi
    have hkept := h.calls old (List.mem_of_getElem? hold)
    unfold settleCall
    split_ifs <;> exact hkept

/-- **The `terminate()` call settles the promise**, unless the exit was first. -/
theorem stage_terminateContinues (h : s.run.Stage first) (call : ℕ) :
    (s.step (.terminateContinues call)).run.Stage first := by
  simp only [step]
  cases hentry : s.run.calls[call]? with
  | none => exact h
  | some entry =>
    dsimp only
    split_ifs with hdue
    swap
    · exact h
    have hmem := List.mem_of_getElem? hentry
    have hcontinued : entry.continued = false := by
      simp only [TerminateCall.due, Bool.and_eq_true, Bool.not_eq_true'] at hdue
      exact hdue.2
    cases h with
    | undecided h => simp [h.calls] at hentry
    | terminating h =>
      obtain ⟨resolved, hcalls⟩ := h.calls
      obtain rfl : entry = ⟨.settle _, resolved, false⟩ := by simpa [hcalls] using hmem
      obtain rfl : call = 0 := by
        by_contra hne
        obtain ⟨call, rfl⟩ := Nat.exists_eq_succ_of_ne_zero hne
        simp [hcalls] at hentry
      refine Stage.finished ⟨⟨h.settled, rfl, rfl, rfl⟩, rfl, h.endTimer, ?_, rfl, ?_⟩
      · simp [continueCall, settle, cleanup, RunScene.retire, hcalls]
      · simp [continueCall, settle, cleanup, RunScene.retire, h.settlements]
    | grace h =>
      rcases h.waiting with ⟨-, hcalls⟩ | ⟨htimer, resolved, hcalls⟩
      · simp [hcalls] at hentry
      · obtain rfl : entry = ⟨.complete _, resolved, false⟩ := by simpa [hcalls] using hmem
        refine Stage.finished (over_complete ⟨h.settled, h.timer, h.abortListening,
          h.messageListening⟩ h.done ?_ h.settlements)
        intro other hother
        rcases List.mem_or_eq_of_mem_set hother with hother | rfl
        · simp only [hcalls, List.mem_singleton] at hother
          exact Or.inr ⟨_, by rw [hother]⟩
        · exact Or.inl rfl
    | finished h =>
      rcases h.calls entry hmem with habsurd | ⟨hdone, outcome', hnext⟩
      · rw [hcontinued] at habsurd
        cases habsurd
      · rw [hnext]
        simp only [continueCall, RunScene.complete, hdone, if_true]
        refine Stage.finished ⟨⟨h.settled, h.timer, h.abortListening, h.messageListening⟩,
          h.exitListeners, h.endTimer, ?_, h.registered, h.settlements⟩
        intro other hother
        rcases List.mem_or_eq_of_mem_set hother with hother | rfl
        · rcases h.calls other hother with hkept | ⟨-, hkept⟩
          · exact Or.inl hkept
          · exact Or.inr ⟨rfl, hkept⟩
        · exact Or.inl rfl

theorem stage_drainCallContinues (h : s.run.Stage first) (call : ℕ) :
    (s.step (.drainCallContinues call)).run.Stage first := by
  simp only [step]
  cases hentry : s.run.drainCalls[call]? with
  | none => exact h
  | some entry =>
    dsimp only
    split_ifs
    · exact h.aside (Or.inr rfl) _ _ _ _
    · exact h.aside (Or.inl rfl) _ _ _ _
    · exact h

/-- **One event**: the outcome of a run is that of its first terminal event. -/
theorem stage_step (h : s.run.Stage first) (event : RunScene.Event V) :
    (s.step event).run.Stage (first.or (terminalOutcome s.run.request event)) := by
  cases event with
  | message message => exact stage_message h message
  | error err => exact stage_error h err
  | exit code => exact stage_exit h code
  | abort reason => exact stage_abort h reason
  | timeout => exact stage_timeout h
  | endTimer => simpa [terminalOutcome] using stage_endTimer h
  | terminateSettles call resolves =>
    simpa only [terminalOutcome, Option.or_none] using stage_terminateSettles h call resolves
  | terminateContinues call =>
    simpa only [terminalOutcome, Option.or_none] using stage_terminateContinues h call
  | drainCallSettles call resolves =>
    simp only [terminalOutcome, Option.or_none]
    exact h.aside (Or.inl rfl) _ _ _ _
  | drainCallContinues call =>
    simpa only [terminalOutcome, Option.or_none] using stage_drainCallContinues h call

/-- A run that has just been opened: the abort of its signal meanwhile is a terminal event. -/
theorem stage_opened (registry : LifetimeRegistry) (lifetime : Option ThreadLifetime)
    (request : RunRequest V) :
    (opened registry lifetime request).run.Stage
      ((request.signal.bind (·.abortedMeanwhile)).map (abortOutcome request.label)) := by
  unfold opened
  cases request.signal.bind (·.abortedMeanwhile) with
  | none => exact Stage.undecided ⟨rfl, rfl, rfl, rfl, rfl, rfl, rfl, rfl, rfl, rfl, rfl⟩
  | some reason => exact stage_finish rfl rfl rfl rfl rfl rfl _ _

/-! ## 5. The thread is over -/

/-- The worker has exited, or the promise of a `terminate()` call has settled. -/
def WorkerRun.ThreadOver (run : WorkerRun V) : Prop :=
  run.exitEmitted = true ∨ (∃ call ∈ run.calls, call.settled.isSome = true) ∨
    ∃ call ∈ run.drainCalls, call.settled.isSome = true

/-- What has been settled stays so. -/
theorem settled_modify {κ : Type*} {calls : List (TerminateCall κ)} (i : ℕ) (resolves : Bool)
    (h : ∃ call ∈ calls, call.settled.isSome = true) :
    ∃ call ∈ calls.modify i (settleCall resolves), call.settled.isSome = true := by
  obtain ⟨call, hcall, hsettled⟩ := h
  obtain ⟨j, hj⟩ := List.mem_iff_getElem?.mp hcall
  refine ⟨(if i = j then settleCall resolves call else call), ?_, ?_⟩
  · refine List.mem_of_getElem? (i := j) ?_
    rw [List.getElem?_modify, hj]
    split_ifs <;> rfl
  · unfold settleCall
    split_ifs
    · rfl
    · exact hsettled
    · exact hsettled

theorem settled_set {κ : Type*} {calls : List (TerminateCall κ)} {i : ℕ} {entry : TerminateCall κ}
    (hentry : calls[i]? = some entry) (h : ∃ call ∈ calls, call.settled.isSome = true) :
    ∃ call ∈ calls.set i { entry with continued := true }, call.settled.isSome = true := by
  obtain ⟨call, hcall, hsettled⟩ := h
  obtain ⟨j, hj⟩ := List.mem_iff_getElem?.mp hcall
  have hlen : i < calls.length := (List.getElem?_eq_some_iff.mp hentry).1
  by_cases hij : i = j
  · subst hij
    obtain rfl : entry = call := Option.some.inj (hentry.symm.trans hj)
    exact ⟨_, List.mem_set hlen _, hsettled⟩
  · refine ⟨call, List.mem_of_getElem? (i := j) ?_, hsettled⟩
    rw [List.getElem?_set_ne hij, hj]

/-- **What an event may do to the worker's entry**: nothing, or take it out of the registry and
give its slot back, once the thread is over. -/
structure RunScene.Keeps (s s' : RunScene V) : Prop where
  request : s'.run.request = s.run.request
  lifetime : s'.run.lifetime = s.run.lifetime
  threadOver : s.run.ThreadOver → s'.run.ThreadOver
  entry : (s'.registry = s.registry ∧ s'.run.registered = s.run.registered) ∨
    (s'.run.ThreadOver ∧ s'.registry = s.registry.retire s.run.lifetime ∧
      s'.run.registered = false)

theorem RunScene.Keeps.refl (s : RunScene V) : s.Keeps s :=
  ⟨rfl, rfl, id, Or.inl ⟨rfl, rfl⟩⟩

theorem RunScene.Keeps.trans {s s' s'' : RunScene V} (h : s.Keeps s') (h' : s'.Keeps s'') :
    s.Keeps s'' := by
  refine ⟨h'.request.trans h.request, h'.lifetime.trans h.lifetime,
    fun hover => h'.threadOver (h.threadOver hover), ?_⟩
  rcases h'.entry with ⟨hreg', hgone'⟩ | ⟨hover', hreg', hgone'⟩
  · rcases h.entry with ⟨hreg, hgone⟩ | ⟨hover, hreg, hgone⟩
    · exact Or.inl ⟨hreg'.trans hreg, hgone'.trans hgone⟩
    · exact Or.inr ⟨h'.threadOver hover, hreg'.trans hreg, hgone'.trans hgone⟩
  · refine Or.inr ⟨hover', ?_, hgone'⟩
    rcases h.entry with ⟨hreg, -⟩ | ⟨-, hreg, -⟩
    · rw [hreg', hreg, h.lifetime]
    · rw [hreg', hreg, h.lifetime, LifetimeRegistry.retire_retire]

theorem finish_keeps (outcome : RunOutcome V) (terminates naturalExit : Bool) (s : RunScene V) :
    s.Keeps (finish outcome terminates naturalExit s) := by
  have hcalls : ∀ next, (∃ call ∈ s.run.calls, call.settled.isSome = true) →
      ∃ call ∈ s.run.calls ++ [({ next := next } : TerminateCall (AfterTerminate V))],
        call.settled.isSome = true := by
    rintro next ⟨call, hcall, hsettled⟩
    exact ⟨call, List.mem_append_left _ hcall, hsettled⟩
  unfold finish
  dsimp only
  split_ifs
  · exact Keeps.refl s
  · exact ⟨rfl, rfl, id, Or.inl ⟨rfl, rfl⟩⟩
  · exact ⟨rfl, rfl, id, Or.inl ⟨rfl, rfl⟩⟩
  · refine ⟨rfl, rfl, ?_, Or.inl ⟨rfl, rfl⟩⟩
    rintro (hexit | hsettled | hdrain)
    · exact Or.inl hexit
    · exact Or.inr (Or.inl (hcalls _ hsettled))
    · exact Or.inr (Or.inr hdrain)
  · exact ⟨rfl, rfl, id, Or.inl ⟨rfl, rfl⟩⟩

/-- Once the thread is over, the closures may take the worker out. -/
theorem retire_keeps (h : s.run.ThreadOver) : s.Keeps s.retire :=
  ⟨rfl, rfl, id, Or.inr ⟨h, rfl, rfl⟩⟩

theorem settle_cleanup_keeps (h : s.run.ThreadOver) (outcome : RunOutcome V) :
    s.Keeps (settle outcome (cleanup s)) :=
  ⟨rfl, rfl, id, Or.inr ⟨h, rfl, rfl⟩⟩

theorem complete_keeps (h : s.run.ThreadOver) (outcome : RunOutcome V) :
    s.Keeps (complete outcome s) := by
  unfold complete
  split_ifs
  · exact Keeps.refl s
  · exact ⟨rfl, rfl, id, Or.inr ⟨h, rfl, rfl⟩⟩

theorem callExitListener_keeps (h : s.run.ThreadOver) (code : ℤ) (listener : ExitListener V) :
    s.Keeps (callExitListener code s listener) := by
  cases listener with
  | retire => exact ⟨rfl, rfl, id, Or.inr ⟨h, rfl, rfl⟩⟩
  | onExit =>
    unfold callExitListener onExit
    split_ifs
    · exact Keeps.refl s
    · exact finish_keeps _ _ _ s
  | complete outcome =>
    have hbefore : ∀ left, s.Keeps { s with run := { s.run with exitListeners := left } } :=
      fun _ => ⟨rfl, rfl, id, Or.inl ⟨rfl, rfl⟩⟩
    exact (hbefore _).trans (complete_keeps ((hbefore _).threadOver h) outcome)

theorem foldl_callExitListener_keeps (code : ℤ) (listeners : List (ExitListener V)) :
    ∀ {s : RunScene V}, s.run.ThreadOver →
      s.Keeps (listeners.foldl (callExitListener code) s) := by
  induction listeners with
  | nil => exact fun _ => Keeps.refl _
  | cons listener listeners ih =>
    intro s h
    have hhead := callExitListener_keeps h code listener
    exact hhead.trans (ih (hhead.threadOver h))

/-- **One event**: the worker's entry goes when the thread is over, and not before. -/
theorem step_keeps (s : RunScene V) (event : RunScene.Event V) : s.Keeps (s.step event) := by
  cases event with
  | message message =>
    simp only [step]
    split_ifs
    · exact Keeps.refl s
    · cases message with
      | progress event => exact ⟨rfl, rfl, id, Or.inl ⟨rfl, rfl⟩⟩
      | result value => exact finish_keeps _ _ _ s
      | error payload => exact finish_keeps _ _ _ s
      | other => exact Keeps.refl s
  | error err =>
    simp only [step, onError]
    split_ifs
    · exact Keeps.refl s
    · exact Keeps.refl s
    · exact finish_keeps _ _ _ s
    · exact ⟨rfl, rfl, id, Or.inl ⟨rfl, rfl⟩⟩
  | exit code =>
    simp only [step]
    split_ifs
    · exact Keeps.refl s
    · have hemitted : s.Keeps { s with run := { s.run with exitEmitted := true } } :=
        ⟨rfl, rfl, fun _ => Or.inl rfl, Or.inl ⟨rfl, rfl⟩⟩
      exact hemitted.trans (foldl_callExitListener_keeps code _ (Or.inl rfl))
  | abort reason =>
    simp only [step]
    split_ifs
    · have hbefore : s.Keeps { s with run := { s.run with abortListening := false } } :=
        ⟨rfl, rfl, id, Or.inl ⟨rfl, rfl⟩⟩
      exact hbefore.trans (finish_keeps _ _ _ _)
    · exact Keeps.refl s
  | timeout =>
    simp only [step]
    split
    · split_ifs
      · have hbefore : s.Keeps { s with run := { s.run with timer := false } } :=
          ⟨rfl, rfl, id, Or.inl ⟨rfl, rfl⟩⟩
        exact hbefore.trans (finish_keeps _ _ _ _)
      · exact Keeps.refl s
    · exact Keeps.refl s
  | endTimer =>
    simp only [step]
    split
    · refine ⟨rfl, rfl, ?_, Or.inl ⟨rfl, rfl⟩⟩
      rintro (hexit | ⟨call, hcall, hsettled⟩ | hdrain)
      · exact Or.inl hexit
      · exact Or.inr (Or.inl ⟨call, List.mem_append_left _ hcall, hsettled⟩)
      · exact Or.inr (Or.inr hdrain)
    · exact Keeps.refl s
  | terminateSettles call resolves =>
    refine ⟨rfl, rfl, ?_, Or.inl ⟨rfl, rfl⟩⟩
    rintro (hexit | hsettled | hdrain)
    · exact Or.inl hexit
    · exact Or.inr (Or.inl (settled_modify call resolves hsettled))
    · exact Or.inr (Or.inr hdrain)
  | terminateContinues call =>
    simp only [step]
    split
    · rename_i entry hentry
      split_ifs with hdue
      · have hbefore : s.Keeps { s with run := { s.run with
            calls := s.run.calls.set call { entry with continued := true } } } := by
          refine ⟨rfl, rfl, ?_, Or.inl ⟨rfl, rfl⟩⟩
          rintro (hexit | hsettled | hdrain)
          · exact Or.inl hexit
          · exact Or.inr (Or.inl (settled_set hentry hsettled))
          · exact Or.inr (Or.inr hdrain)
        have hover : s.run.ThreadOver := by
          simp only [TerminateCall.due, Bool.and_eq_true] at hdue
          exact Or.inr (Or.inl ⟨entry, List.mem_of_getElem? hentry, hdue.1⟩)
        unfold continueCall
        split
        · exact hbefore.trans (settle_cleanup_keeps (hbefore.threadOver hover) _)
        · exact hbefore.trans (complete_keeps (hbefore.threadOver hover) _)
      · exact Keeps.refl s
    · exact Keeps.refl s
  | drainCallSettles call resolves =>
    refine ⟨rfl, rfl, ?_, Or.inl ⟨rfl, rfl⟩⟩
    rintro (hexit | hsettled | hdrain)
    · exact Or.inl hexit
    · exact Or.inr (Or.inl hsettled)
    · exact Or.inr (Or.inr (settled_modify call resolves hdrain))
  | drainCallContinues call =>
    simp only [step]
    split
    · rename_i entry hentry
      by_cases hdue : TerminateCall.due entry = true
      · rw [if_pos hdue]
        have hbefore : s.Keeps { s with run := { s.run with
            drainCalls := s.run.drainCalls.set call { entry with continued := true } } } := by
          refine ⟨rfl, rfl, ?_, Or.inl ⟨rfl, rfl⟩⟩
          rintro (hexit | hsettled | hdrain)
          · exact Or.inl hexit
          · exact Or.inr (Or.inl hsettled)
          · exact Or.inr (Or.inr (settled_set hentry hdrain))
        have hover : s.run.ThreadOver := by
          simp only [TerminateCall.due, Bool.and_eq_true] at hdue
          exact Or.inr (Or.inr ⟨entry, List.mem_of_getElem? hentry, hdue.1⟩)
        by_cases hok : entry.settled = some true
        · simp only [if_pos hok]
          exact hbefore.trans (retire_keeps (hbefore.threadOver hover))
        · simp only [if_neg hok]
          exact hbefore
      · rw [if_neg hdue]
        exact Keeps.refl s
    · exact Keeps.refl s

/-! ## 6. The worker's entry -/

/-- The worker is registered and its lifetime slot held, until the thread is over. -/
structure RunScene.EntryKept (s : RunScene V) : Prop where
  left : s.run.registered = false → s.run.ThreadOver
  issued : ∀ lifetime ∈ s.run.lifetime, s.registry.Issued lifetime
  held : s.run.registered = true → ∀ lifetime ∈ s.run.lifetime, s.registry.Holds lifetime
  retired : s.run.registered = false → ∀ lifetime ∈ s.run.lifetime,
    s.registry.hasExited lifetime = true

theorem RunScene.EntryKept.of_keeps {s s' : RunScene V} (h : s.EntryKept) (hkeeps : s.Keeps s') :
    s'.EntryKept := by
  rcases hkeeps.entry with ⟨hreg, hsame⟩ | ⟨hover, hreg, hgone⟩
  · constructor
    · intro hgone
      exact hkeeps.threadOver (h.left (hsame.symm.trans hgone))
    · rw [hkeeps.lifetime, hreg]
      exact h.issued
    · rw [hkeeps.lifetime, hreg, hsame]
      exact h.held
    · rw [hkeeps.lifetime, hreg, hsame]
      exact h.retired
  · have hadvances := LifetimeRegistry.advances_retire s.registry s.run.lifetime
      (fun lifetime hlifetime => (h.issued lifetime hlifetime).pos)
    constructor
    · exact fun _ => hover
    · intro lifetime hlifetime
      rw [hkeeps.lifetime] at hlifetime
      rw [hreg]
      exact hadvances.issued (h.issued lifetime hlifetime)
    · intro hregistered
      rw [hgone] at hregistered
      cases hregistered
    · intro _ lifetime hlifetime
      rw [hkeeps.lifetime] at hlifetime
      rw [hreg]
      cases hentry : s.run.registered with
      | false =>
        exact hadvances.hasExited (h.issued lifetime hlifetime) (h.retired hentry _ hlifetime)
      | true =>
        have hlifetime' : s.run.lifetime = some lifetime := hlifetime
        rw [hlifetime']
        exact LifetimeRegistry.hasExited_retire_self (h.held hentry lifetime hlifetime)

/-- A reservation made elsewhere. -/
theorem RunScene.EntryKept.reserve (h : s.EntryKept) :
    ({ s with registry := s.registry.reserve.1 } : RunScene V).EntryKept := by
  have hadvances := LifetimeRegistry.advances_reserve s.registry
  constructor
  · exact h.left
  · exact fun lifetime hlifetime => hadvances.issued (h.issued lifetime hlifetime)
  · exact fun hregistered lifetime hlifetime => (h.held hregistered lifetime hlifetime).reserve
  · exact fun hgone lifetime hlifetime =>
      hadvances.hasExited (h.issued lifetime hlifetime) (h.retired hgone lifetime hlifetime)

/-- A retirement elsewhere, of another reservation. -/
theorem RunScene.EntryKept.retireElsewhere (h : s.EntryKept) {other : ThreadLifetime}
    (hpos : 0 < other.generation) (hne : ∀ lifetime ∈ s.run.lifetime, other ≠ lifetime) :
    ({ s with registry := s.registry.retire (some other) } : RunScene V).EntryKept := by
  have hadvances := LifetimeRegistry.advances_retire s.registry (some other)
    (fun lifetime hlifetime => by
      obtain rfl := Option.some.inj hlifetime
      exact hpos)
  constructor
  · exact h.left
  · exact fun lifetime hlifetime => hadvances.issued (h.issued lifetime hlifetime)
  · exact fun hregistered lifetime hlifetime =>
      LifetimeRegistry.retire_holds (h.held hregistered lifetime hlifetime)
        (hne lifetime hlifetime)
  · exact fun hgone lifetime hlifetime =>
      hadvances.hasExited (h.issued lifetime hlifetime) (h.retired hgone lifetime hlifetime)

/-- A run whose slot has just been reserved. -/
theorem entryKept_opened (registry : LifetimeRegistry) (request : RunRequest V) :
    (opened registry.reserve.1 registry.reserve.2 request).EntryKept := by
  let s₀ : RunScene V :=
    { registry := registry.reserve.1,
      run := { request := request, lifetime := registry.reserve.2 } }
  have hheld : ∀ lifetime ∈ registry.reserve.2, registry.reserve.1.Holds lifetime :=
    fun lifetime hlifetime => LifetimeRegistry.holds_reserve hlifetime
  have hstart : s₀.EntryKept := by
    refine ⟨fun hgone => ?_, fun lifetime hlifetime => (hheld lifetime hlifetime).issued,
      fun _ => hheld, fun hgone => ?_⟩
    · cases hgone
    · cases hgone
  unfold opened
  dsimp only
  cases request.signal.bind (·.abortedMeanwhile) with
  | none => exact hstart.of_keeps ⟨rfl, rfl, id, Or.inl ⟨rfl, rfl⟩⟩
  | some reason => exact hstart.of_keeps (finish_keeps _ _ _ _)

/-! ## 7. What the stages say -/

/-- Nothing of the run is outstanding: no timer of `finish` is armed, and what waits for its
`terminate()` calls has run. -/
def WorkerRun.Idle (run : WorkerRun V) : Prop :=
  run.endTimer = none ∧ ∀ call ∈ run.calls, call.continued = true

/-- The promise settles at most once, with the outcome of the first terminal event. -/
theorem WorkerRun.Stage.settlements {run : WorkerRun V} (h : run.Stage first) :
    run.settlements = [] ∨
      ∃ outcome, first = some outcome ∧ run.settlements = [outcome] ∧ run.registered = false := by
  cases h with
  | undecided h => exact Or.inl h.settlements
  | terminating h => exact Or.inl h.settlements
  | grace h => exact Or.inl h.settlements
  | finished h => exact Or.inr ⟨_, rfl, h.settlements, h.registered⟩

/-- A decided promise of which nothing is outstanding has settled. -/
theorem WorkerRun.Stage.settled_of_idle {run : WorkerRun V} (h : run.Stage first)
    (hidle : run.Idle) : run.settlements = first.toList := by
  obtain ⟨htimer, hcalls⟩ := hidle
  cases h with
  | undecided h => exact h.settlements
  | terminating h =>
    obtain ⟨resolved, hcall⟩ := h.calls
    have hcontinued := hcalls _ (by rw [hcall]; exact List.mem_singleton_self _)
    cases hcontinued
  | grace h =>
    rcases h.waiting with ⟨hsome, -⟩ | ⟨-, resolved, hcall⟩
    · rw [htimer] at hsome
      cases hsome
    · have hcontinued := hcalls _ (by rw [hcall]; exact List.mem_singleton_self _)
      cases hcontinued
  | finished h => exact h.settlements

end PosseClient
