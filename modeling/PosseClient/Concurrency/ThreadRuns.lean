/-
# One run of a worker thread

`ThreadManager.run` decides an outcome at the first terminal event of its worker and settles its
promise when the thread is over.  The closures of the source are kept as they are: the listeners
of the worker's `exit` event in their order, the two timers, and the `terminate()` calls with the
reaction that waits for each.

* `ThreadError`, `errorFromThreadPayload`, `decorateThreadError`, `abortReasonToError`: errors.
* `RunRequest`, `WorkerRun`, `RunScene`: what `run` is given, its variables, and these with the
  registry of lifetime slots.
* `retire`, `cleanup`, `complete`, `finish`: the closures of `run`.
* `onMessage`, `onError`, `onExit`, `onAbort`, `emitExit`: the handlers.
* `RunScene.step`: one event of the worker, of the signal, of a timer or of a `terminate()` call.
-/
import PosseClient.Concurrency.ThreadLifetimes

namespace PosseClient

variable {V : Type*}

/-! ## 1. Errors and messages -/

/-- A member of an error. -/
inductive ErrorField (V : Type*) where
  | text (value : String)
  | number (value : ℤ)
  | other (value : V)
  deriving DecidableEq, Repr

structure ThreadError (V : Type*) where
  name : String := "Error"
  message : String
  /-- The stack taken over; `none` is the stack of the place that built the error. -/
  stack : Option String := none
  fields : List (String × ErrorField V) := []
  deriving DecidableEq, Repr

/-- What a worker posts for an error; an absent text is empty. -/
structure ErrorPayload (V : Type*) where
  name : String := ""
  message : String := ""
  stack : String := ""
  fields : List (String × ErrorField V) := []
  deriving DecidableEq, Repr

/-- The members an error takes over from its payload. -/
def hydratedKeys : List String :=
  ["code", "errno", "syscall", "path", "spawnargs", "status", "signal", "killed", "timeoutMs",
    "stderr", "stdout", "hookOutput", "gitCommitTimedOut", "gitCommitTimeoutBudget",
    "createdOutOfScope", "outOfScopeDirtySkipped", "outOfScopeStagingSkipped",
    "retryable", "assessmentRetryable", "gitAddWarnings", "nativeFailure", "rollbackStatus",
    "rollbackSucceeded", "nativeDiagnostics", "headBefore", "headAfter"]

/-- `value || fallback` of a text. -/
def orFallback (value fallback : String) : String := if value = "" then fallback else value

/-- `errorFromThreadPayload`. -/
def errorFromThreadPayload (payload : ErrorPayload V) (fallbackMessage : String) :
    ThreadError V where
  name := orFallback payload.name "Error"
  message := orFallback payload.message fallbackMessage
  stack := if payload.stack = "" then none else some payload.stack
  fields := hydratedKeys.filterMap fun key =>
    (payload.fields.lookup key).map fun value => (key, value)

/-- `decorateThreadError`: the extra members take the place of their namesakes. -/
def decorateThreadError (err : ThreadError V) (extra : List (String × ErrorField V)) :
    ThreadError V :=
  { err with fields := err.fields.filter (fun field => (extra.lookup field.1).isNone) ++ extra }

/-- `signal.reason`. -/
inductive AbortReason (V : Type*) where
  | error (err : ThreadError V)
  | value (reason : V)
  | absent
  deriving DecidableEq, Repr

/-- `abortReasonToError`. -/
def abortReasonToError (label : String) : AbortReason V → ThreadError V
  | .error err => err
  | .value reason =>
    { name := "AbortError", message := label ++ " aborted",
      fields := [("code", .text "ABORT_ERR"), ("reason", .other reason)] }
  | .absent =>
    { name := "AbortError", message := label ++ " aborted",
      fields := [("code", .text "ABORT_ERR")] }

inductive ThreadMessage (V : Type*) where
  | progress (event : V)
  | result (value : V)
  | error (payload : ErrorPayload V)
  | other
  deriving DecidableEq, Repr

/-- What a worker's `error` event carries. -/
inductive WorkerError (V : Type*) where
  | error (err : ThreadError V)
  | other (text : String)
  deriving DecidableEq, Repr

/-- How the promise settles. -/
inductive RunOutcome (V : Type*) where
  | resolved (value : V)
  | rejected (err : ThreadError V)
  deriving DecidableEq, Repr

/-! ## 2. The variables of a run -/

/-- The caller's signal: its reason, where it is aborted before the call, and where it is aborted
while the worker is being built. -/
structure RunSignal (V : Type*) where
  abortedBefore : Option (AbortReason V) := none
  abortedMeanwhile : Option (AbortReason V) := none
  deriving DecidableEq, Repr

/-- What `run` is given; `none` for what is no finite number, and `thrown` what building the
worker throws. -/
structure RunRequest (V : Type*) where
  label : String := "worker thread"
  timeoutMs : Option ℕ := none
  signal : Option (RunSignal V) := none
  stopGraceMs : Option ℚ := some 0
  terminalExitGraceMs : Option ℚ := some 100
  thrown : Option (ThreadError V) := none
  deriving DecidableEq, Repr

namespace RunRequest

/-- The milliseconds of a grace option. -/
def graceMs : Option ℚ → ℕ
  | some ms => if 0 < ms then ⌊ms⌋.toNat else 0
  | none => 0

/-- `gracefulStopMs`. -/
def gracefulStopMs (request : RunRequest V) : ℕ := graceMs request.stopGraceMs

/-- `terminalGraceMs`. -/
def terminalGraceMs (request : RunRequest V) : ℕ := graceMs request.terminalExitGraceMs

/-- The timeout `run` arms. -/
def maxMs (request : RunRequest V) : Option ℕ := request.timeoutMs.filter (0 < ·)

end RunRequest

/-- The listeners `run` puts on the worker's `exit` event. -/
inductive ExitListener (V : Type*) where
  | retire
  | onExit
  | complete (outcome : RunOutcome V)
  deriving DecidableEq, Repr

/-- What follows a `terminate()` call of `finish`. -/
inductive AfterTerminate (V : Type*) where
  | settle (outcome : RunOutcome V)
  | complete (outcome : RunOutcome V)
  deriving DecidableEq, Repr

/-- A `terminate()` call: whether its promise has settled (and resolved), and whether what waits
for it has run. -/
structure TerminateCall (κ : Type*) where
  next : κ
  settled : Option Bool := none
  continued : Bool := false
  deriving DecidableEq, Repr

/-- The variables of one `run`, its entry of `liveWorkers`, and what has happened to its worker. -/
structure WorkerRun (V : Type*) where
  request : RunRequest V
  lifetime : Option ThreadLifetime
  /-- The entry of `liveWorkers`. -/
  registered : Bool := true
  /-- `resolveExit()` has been called. -/
  exited : Bool := false
  /-- The worker has emitted `exit`. -/
  exitEmitted : Bool := false
  settled : Bool := false
  /-- `timer`: the timeout is armed. -/
  timer : Bool := false
  abortListening : Bool := false
  messageListening : Bool := true
  errorListening : Bool := true
  exitListeners : List (ExitListener V) := [.retire, .onExit]
  done : Bool := false
  /-- `exitTimer` or `graceTimer`, with the outcome its callback closes over. -/
  endTimer : Option (RunOutcome V) := none
  /-- The worker has been posted `stop`. -/
  stopPosted : Bool := false
  calls : List (TerminateCall (AfterTerminate V)) := []
  /-- The calls of `drainAll`, each with its drain. -/
  drainCalls : List (TerminateCall ℕ) := []
  /-- The events `onProgress` is given. -/
  progress : List V := []
  /-- The `error` events that found no listener. -/
  unhandled : ℕ := 0
  /-- The calls of `resolve` and `reject`. -/
  settlements : List (RunOutcome V) := []
  deriving DecidableEq, Repr

/-- A run with the registry of lifetime slots. -/
structure RunScene (V : Type*) where
  registry : LifetimeRegistry
  run : WorkerRun V
  deriving DecidableEq, Repr

namespace RunScene

/-! ## 3. The closures of `run` -/

/-- `retire`. -/
def retire (s : RunScene V) : RunScene V :=
  { registry := s.registry.retire s.run.lifetime,
    run := { s.run with registered := false, exited := true } }

/-- `cleanup`. -/
def cleanup (s : RunScene V) : RunScene V :=
  let s := s.retire
  { s with run := { s.run with
      timer := false, abortListening := false, messageListening := false,
      errorListening := false, exitListeners := [] } }

/-- `fn(value)`. -/
def settle (outcome : RunOutcome V) (s : RunScene V) : RunScene V :=
  { s with run := { s.run with settlements := s.run.settlements ++ [outcome] } }

/-- `complete`. -/
def complete (outcome : RunOutcome V) (s : RunScene V) : RunScene V :=
  if s.run.done then s
  else settle outcome (cleanup { s with run := { s.run with done := true, endTimer := none } })

/-- `worker.terminate()` of `finish`. -/
def terminate (next : AfterTerminate V) (s : RunScene V) : RunScene V :=
  { s with run := { s.run with calls := s.run.calls ++ [{ next := next }] } }

/-- `finish`. -/
def finish (outcome : RunOutcome V) (terminates naturalExit : Bool) (s : RunScene V) :
    RunScene V :=
  if s.run.settled then s
  else
    let run := { s.run with
      settled := true, timer := false, abortListening := false, messageListening := false }
    if !terminates then
      settle outcome { s with run := { run with errorListening := false, exitListeners := [] } }
    else if naturalExit && decide (0 < run.request.terminalGraceMs) then
      { s with run := { run with
          exitListeners := run.exitListeners ++ [.complete outcome], endTimer := some outcome } }
    else if run.request.gracefulStopMs = 0 then
      terminate (.settle outcome) { s with run := run }
    else
      { s with run := { run with
          stopPosted := true,
          exitListeners := run.exitListeners ++ [.complete outcome], endTimer := some outcome } }

/-! ## 4. The outcomes and the handlers -/

/-- How an abort ends the run. -/
def abortOutcome (label : String) (reason : AbortReason V) : RunOutcome V :=
  .rejected (decorateThreadError (abortReasonToError label reason)
    [("code", .text "THREAD_ABORTED"), ("threadLabel", .text label)])

/-- How the timeout ends the run. -/
def timeoutOutcome (label : String) (maxMs : ℕ) : RunOutcome V :=
  .rejected (decorateThreadError { message := s!"{label} timed out after {maxMs}ms" }
    [("code", .text "THREAD_TIMEOUT"), ("timeoutMs", .number maxMs), ("threadLabel", .text label)])

/-- How an exit without a result ends the run. -/
def exitOutcome (label : String) (code : ℤ) : RunOutcome V :=
  .rejected (decorateThreadError
    { message := if code = 0 then s!"{label} exited before returning a result"
        else s!"{label} exited with code {code}" }
    [("code", .text "THREAD_EXIT"), ("exitCode", .number code), ("threadLabel", .text label)])

/-- How an `error` event ends the run. -/
def errorOutcome (label : String) (err : WorkerError V) : RunOutcome V :=
  let err := match err with
    | .error err => err
    | .other text => { message := text }
  .rejected (decorateThreadError err
    [("code", .text "THREAD_ERROR"), ("threadLabel", .text label)])

/-- How a message ends the run, when it does. -/
def messageOutcome (label : String) : ThreadMessage V → Option (RunOutcome V)
  | .result value => some (.resolved value)
  | .error payload => some (.rejected (errorFromThreadPayload payload s!"{label} failed"))
  | .progress _ => none
  | .other => none

/-- `onMessage`. -/
def onMessage (message : ThreadMessage V) (s : RunScene V) : RunScene V :=
  match message with
  | .progress event => { s with run := { s.run with progress := s.run.progress ++ [event] } }
  | .result value => finish (.resolved value) true true s
  | .error payload =>
    finish (.rejected (errorFromThreadPayload payload s!"{s.run.request.label} failed")) true true s
  | .other => s

/-- `onError`. -/
def onError (err : WorkerError V) (s : RunScene V) : RunScene V :=
  if s.run.settled then s else finish (errorOutcome s.run.request.label err) true true s

/-- `onExit`. -/
def onExit (code : ℤ) (s : RunScene V) : RunScene V :=
  if s.run.settled then s else finish (exitOutcome s.run.request.label code) false false s

/-- `onAbort`. -/
def onAbort (reason : AbortReason V) (s : RunScene V) : RunScene V :=
  finish (abortOutcome s.run.request.label reason) true false s

/-- The callback of the timeout. -/
def onTimeout (maxMs : ℕ) (s : RunScene V) : RunScene V :=
  finish (timeoutOutcome s.run.request.label maxMs) true false s

/-- A listener of `exit` is called; one put there with `once` goes first. -/
def callExitListener (code : ℤ) (s : RunScene V) : ExitListener V → RunScene V
  | .retire =>
    retire { s with run := { s.run with
      exitListeners := s.run.exitListeners.filter fun
        | .retire => false
        | _ => true } }
  | .onExit => onExit code s
  | .complete outcome =>
    complete outcome { s with run := { s.run with
      exitListeners := s.run.exitListeners.filter fun
        | .complete _ => false
        | _ => true } }

/-- The worker emits `exit`: the listeners of this moment are called in their order. -/
def emitExit (code : ℤ) (s : RunScene V) : RunScene V :=
  s.run.exitListeners.foldl (callExitListener code)
    { s with run := { s.run with exitEmitted := true } }

/-! ## 5. The steps -/

/-- What can happen to a run after its start.  Calls are named by their place. -/
inductive Event (V : Type*) where
  | message (message : ThreadMessage V)
  | error (err : WorkerError V)
  | exit (code : ℤ)
  | abort (reason : AbortReason V)
  /-- The timeout fires. -/
  | timeout
  /-- `exitTimer` or `graceTimer` fires. -/
  | endTimer
  /-- The promise of a `terminate()` call resolves or rejects. -/
  | terminateSettles (call : ℕ) (resolves : Bool)
  /-- What waits for a settled call runs. -/
  | terminateContinues (call : ℕ)
  | drainCallSettles (call : ℕ) (resolves : Bool)
  | drainCallContinues (call : ℕ)
  deriving DecidableEq, Repr

/-- A call's promise settles, once. -/
def settleCall {κ : Type*} (resolves : Bool) (call : TerminateCall κ) : TerminateCall κ :=
  if call.settled.isNone then { call with settled := some resolves } else call

/-- What waits for the call is due. -/
def TerminateCall.due {κ : Type*} (call : TerminateCall κ) : Bool :=
  call.settled.isSome && !call.continued

/-- `.catch(() => undefined).finally(…)` of a call of `finish`. -/
def continueCall (next : AfterTerminate V) (s : RunScene V) : RunScene V :=
  match next with
  | .settle outcome => settle outcome (cleanup s)
  | .complete outcome => complete outcome s

/-- One event.  What cannot happen in the state (an event of a worker that has exited, a timer
that is not armed, a call that is not there) changes nothing. -/
def step (s : RunScene V) : Event V → RunScene V
  | .message message =>
    if s.run.exitEmitted || !s.run.messageListening then s else onMessage message s
  | .error err =>
    if s.run.exitEmitted then s
    else if s.run.errorListening then onError err s
    else { s with run := { s.run with unhandled := s.run.unhandled + 1 } }
  | .exit code => if s.run.exitEmitted then s else emitExit code s
  | .abort reason =>
    if s.run.abortListening then
      onAbort reason { s with run := { s.run with abortListening := false } }
    else s
  | .timeout =>
    match s.run.request.maxMs with
    | some maxMs =>
      if s.run.timer then onTimeout maxMs { s with run := { s.run with timer := false } } else s
    | none => s
  | .endTimer =>
    match s.run.endTimer with
    | some outcome =>
      terminate (.complete outcome) { s with run := { s.run with endTimer := none } }
    | none => s
  | .terminateSettles call resolves =>
    { s with run := { s.run with calls := s.run.calls.modify call (settleCall resolves) } }
  | .terminateContinues call =>
    match s.run.calls[call]? with
    | some entry =>
      if TerminateCall.due entry then
        continueCall entry.next { s with run := { s.run with
          calls := s.run.calls.set call { entry with continued := true } } }
      else s
    | none => s
  | .drainCallSettles call resolves =>
    { s with run := { s.run with
        drainCalls := s.run.drainCalls.modify call (settleCall resolves) } }
  | .drainCallContinues call =>
    match s.run.drainCalls[call]? with
    | some entry =>
      if TerminateCall.due entry then
        let s := { s with run := { s.run with
          drainCalls := s.run.drainCalls.set call { entry with continued := true } } }
        if entry.settled = some true then retire s else s
      else s
    | none => s

/-- The start of a run whose worker has been built. -/
def opened (registry : LifetimeRegistry) (lifetime : Option ThreadLifetime)
    (request : RunRequest V) : RunScene V :=
  let s : RunScene V :=
    { registry := registry, run := { request := request, lifetime := lifetime } }
  match request.signal.bind (·.abortedMeanwhile) with
  | some reason => onAbort reason s
  | none =>
    { s with run := { s.run with
        abortListening := request.signal.isSome, timer := request.maxMs.isSome } }

end RunScene

end PosseClient
