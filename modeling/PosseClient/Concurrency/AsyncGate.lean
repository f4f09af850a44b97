/-
# The reader/writer gate

`ProtectedAssetGate` of `AsyncGate.js`.  One state object for each key that is in use: the active
readers, the active writer and the queue.  A task is queued, started by `#drain`, runs, gives the
lock back and settles its promise; or it is cancelled while it waits.

* JavaScript runs one piece of code at a time, and user code runs inside the gate only as a hook.
  A `GateFrame` on `stack` is a hook that runs, with what the gate still has to do when it returns;
  while it runs it may call the gate again.  A hook that is absent returns at once.
* State objects have identities (`heap`), and the map from keys to them (`states`) forgets an idle
  one only in a later microtask (`cleanups`), so that a key split in two could be expressed.
-/
import PosseClient.Queue.HumanGates

namespace PosseClient

/-! ## 1. Tasks, state objects, the gate -/

/-- `GatePolicy`. -/
inductive GatePolicy
  | readPriority | fifo | writerPriority
  deriving DecidableEq, Repr

/-- The mode of a task: a writer or a reader. -/
inductive GateMode
  | blocking | nonBlocking
  deriving DecidableEq, Repr

/-- How a task's function settled; an error may be an object. -/
inductive TaskResult
  | fulfilled
  | threw (isObject : Bool)
  deriving DecidableEq, Repr

/-- What the promise of a task is settled with: its value or its error, the error of its
`onBeforeRelease`, or an error of the gate. -/
inductive GateOutcome
  | fulfilled | threw | cleanupThrew
  | timedOut (maxWaitMs : ℕ)
  | aborted
  | closed (reason : String)
  deriving DecidableEq, Repr

/-- How far a task is.  `started` holds from `scheduled` on, `cancelled` in the phase of that name;
a task is refused where the gate is closed before it is made. -/
inductive TaskPhase
  | queued
  | scheduled
  | running
  | cleaning (result : TaskResult)
  | releasing
  | done
  | cancelled
  | refused
  deriving DecidableEq, Repr

/-- A waiter.  `starts` counts the calls of its function, `settled` lists the calls of `resolve`
and `reject` of its promise. -/
structure GateTask where
  key : String := "global"
  state : ℕ := 0
  mode : GateMode := .nonBlocking
  priority : ℚ := 0
  label : String := "work"
  requestedAt : ℕ := 0
  depthAtEnqueue : ℕ := 0
  inFlightAtEnqueue : ℕ := 0
  maxWaitMs : Option ℕ := none
  hasSignal : Bool := false
  phase : TaskPhase := .queued
  starts : ℕ := 0
  settled : List GateOutcome := []
  deriving DecidableEq, Repr

/-- A state object. -/
structure KeyState where
  activeReaders : ℕ := 0
  activeWriter : Bool := false
  queue : List ℕ := []
  deriving DecidableEq, Repr

/-- What the gate has still to do. -/
inductive GateFrame
  | cancelHook (task : ℕ)
  | releaseHook (task : ℕ) (outcome : GateOutcome)
  | closing (pending : List ℕ) (reason : String)
  deriving DecidableEq, Repr

/-- A gate. -/
structure Gate where
  name : String := "protected asset"
  policy : GatePolicy := .readPriority
  closed : Bool := false
  states : List (String × ℕ) := []
  heap : ℕ → KeyState := fun _ => {}
  nextState : ℕ := 0
  tasks : ℕ → GateTask := fun _ => {}
  nextTask : ℕ := 0
  stack : List GateFrame := []
  cleanups : List (String × ℕ) := []

/-- `normalizeGateKey`. -/
def normalizeGateKey (value : Option String) : String :=
  let text := trim ((value.filter (· != "")).getD "global")
  if text = "" then "global" else text

/-- Write a task. -/
def Gate.setTask (g : Gate) (t : ℕ) (task : GateTask) : Gate :=
  { g with tasks := Function.update g.tasks t task }

/-- Write a state object. -/
def Gate.setState (g : Gate) (s : ℕ) (state : KeyState) : Gate :=
  { g with heap := Function.update g.heap s state }

/-- Move a task to a phase. -/
def Gate.move (g : Gate) (t : ℕ) (phase : TaskPhase) : Gate :=
  g.setTask t { g.tasks t with phase := phase }

/-- `task.resolve` or `task.reject`. -/
def Gate.settle (g : Gate) (t : ℕ) (phase : TaskPhase) (outcome : GateOutcome) : Gate :=
  g.setTask t { g.tasks t with phase := phase, settled := (g.tasks t).settled ++ [outcome] }

/-- `task.cancelled`. -/
def GateTask.cancelled (task : GateTask) : Bool := task.phase == .cancelled

/-! ## 2. Starting tasks -/

/-- Nothing is active and nothing waits. -/
def KeyState.isIdle (state : KeyState) : Bool :=
  !state.activeWriter && state.activeReaders == 0 && state.queue == []

/-- `#cleanupState`: an idle state is forgotten in a microtask. -/
def Gate.cleanupState (g : Gate) (key : String) (s : ℕ) : Gate :=
  if (g.heap s).isIdle then { g with cleanups := g.cleanups ++ [(key, s)] } else g

/-- `#startReader`; its function is called in a microtask. -/
def Gate.startReader (g : Gate) (s t : ℕ) : Gate :=
  (g.setState s { g.heap s with activeReaders := (g.heap s).activeReaders + 1 }).move t .scheduled

/-- `#startWriter`. -/
def Gate.startWriter (g : Gate) (s t : ℕ) : Gate :=
  (g.setState s { g.heap s with activeWriter := true }).move t .scheduled

/-- `state.queue.shift()`. -/
def Gate.shift (g : Gate) (s : ℕ) (rest : List ℕ) : Gate :=
  g.setState s { g.heap s with queue := rest }

/-- The loop of `#drain` over the queue of the state. -/
def Gate.drainLoop (key : String) (s : ℕ) : List ℕ → Gate → Gate
  | [], g => g.cleanupState key s
  | t :: rest, g =>
    if (g.tasks t).cancelled then drainLoop key s rest (g.shift s rest)
    else match (g.tasks t).mode with
      | .nonBlocking => drainLoop key s rest ((g.shift s rest).startReader s t)
      | .blocking =>
        if 0 < (g.heap s).activeReaders then g else (g.shift s rest).startWriter s t

/-- `#drain`. -/
def Gate.drain (g : Gate) (key : String) (s : ℕ) : Gate :=
  if g.closed then g.cleanupState key s
  else if (g.heap s).activeWriter then g
  else g.drainLoop key s (g.heap s).queue

/-- `#cancelWaiter` up to the hook, and its answer; `#drain` follows when the hook returns. -/
def Gate.cancelWaiter (g : Gate) (t : ℕ) (outcome : GateOutcome) : Gate × Bool :=
  let task := g.tasks t
  if task.phase ≠ .queued then (g, false)
  else
    let state := g.heap task.state
    let removed := g.setState task.state { state with queue := state.queue.filter (· != t) }
    let rejected := removed.settle t .cancelled outcome
    ({ rejected with stack := .cancelHook t :: g.stack }, true)

/-! ## 3. Calls -/

/-- The arguments of `runBlocking` and `runNonBlocking`; the signal says whether it is aborted, and
`waitMs` is `none` where the wait is unbounded. -/
structure GateCall where
  key : Option String := none
  mode : GateMode
  label : String := "work"
  waitMs : Option ℕ := some 30000
  signal : Option Bool := none
  priority : ℚ := 0
  now : ℕ := 0
  deriving DecidableEq, Repr

/-- `PRIORITY_AGING_MS`. -/
def priorityAgingMs : ℕ := 30000

/-- The place of a task in the queue. -/
def Gate.insertIndex (g : Gate) (s : ℕ) (task : GateTask) : ℕ :=
  let queue := (g.heap s).queue
  let isReader := fun e => decide ((g.tasks e).mode = .nonBlocking)
  if task.mode = .blocking ∧ 0 < task.priority then
    -- before the first writer of a lower priority that has not aged
    queue.findIdx (fun e => !(g.tasks e).cancelled && !isReader e &&
      decide (task.requestedAt - (g.tasks e).requestedAt < priorityAgingMs) &&
      decide ((g.tasks e).priority < task.priority))
  else if g.policy = .writerPriority then
    if task.mode = .blocking then queue.findIdx (fun e => !(g.tasks e).cancelled && isReader e)
    else queue.length
  else if g.policy = .fifo ∨ task.mode ≠ .nonBlocking ∨ (g.heap s).activeWriter = false then
    queue.length
  else (queue.takeWhile isReader).length

/-- `#insertTask`. -/
def Gate.insertTask (g : Gate) (s t : ℕ) : Gate :=
  let index := g.insertIndex s (g.tasks t)
  let queue := (g.heap s).queue
  g.setState s { g.heap s with queue := queue.take index ++ t :: queue.drop index }

/-- `#stateFor`. -/
def Gate.stateFor (g : Gate) (key : String) : Gate × ℕ :=
  match g.states.lookup key with
  | some s => (g, s)
  | none =>
    ({ g.setState g.nextState {} with
       states := g.states ++ [(key, g.nextState)], nextState := g.nextState + 1 }, g.nextState)

/-- The waiter of a call. -/
def Gate.newTask (g : Gate) (call : GateCall) (s : ℕ) : GateTask :=
  let state := g.heap s
  { key := normalizeGateKey call.key
    state := s
    mode := call.mode
    priority := if call.mode = .blocking then call.priority else 0
    label := call.label
    requestedAt := call.now
    depthAtEnqueue := (state.queue.filter (fun e => !(g.tasks e).cancelled)).length
    inFlightAtEnqueue := state.activeReaders + if state.activeWriter then 1 else 0
    maxWaitMs := call.waitMs
    hasSignal := call.signal.isSome }

/-- A new object among the tasks. -/
def Gate.addTask (g : Gate) (task : GateTask) : Gate :=
  { g.setTask g.nextTask task with nextTask := g.nextTask + 1 }

/-- `#enqueue`.  A closed gate answers with a rejected promise. -/
def Gate.enqueue (g : Gate) (call : GateCall) : Gate :=
  let key := normalizeGateKey call.key
  if g.closed then
    g.addTask
      { key := key, mode := call.mode, label := call.label, requestedAt := call.now,
        phase := .refused, settled := [.closed "gate closed"] }
  else
    let (g₁, s) := g.stateFor key
    let t := g₁.nextTask
    let g₂ := g₁.addTask (g₁.newTask call s)
    if call.signal = some true then (g₂.cancelWaiter t .aborted).1
    else
      let g₃ := (g₂.insertTask s t).drain key s
      if call.waitMs = some 0 then (g₃.cancelWaiter t (.timedOut 0)).1 else g₃

/-- `runBlocking`. -/
def Gate.runBlocking (g : Gate) (call : GateCall) : Gate := g.enqueue { call with mode := .blocking }

/-- `runNonBlocking`. -/
def Gate.runNonBlocking (g : Gate) (call : GateCall) : Gate :=
  g.enqueue { call with mode := .nonBlocking }

/-! ## 4. Closing, and what follows a hook -/

/-- The loop of `close` over the tasks that wait: it stops at the hook of the first one it
cancels. -/
def Gate.continueClose (reason : String) : List ℕ → Gate → Gate
  | [], g => g
  | t :: rest, g =>
    let cancelled :=
      { g with stack := .closing rest reason :: g.stack }.cancelWaiter t (.closed reason)
    if cancelled.2 then cancelled.1 else continueClose reason rest g

/-- `close`.  The source collects the waiting tasks one state after the other; a task that a hook
cancels in between is skipped by `#cancelWaiter` in either order. -/
def Gate.close (g : Gate) (reason : String) : Gate :=
  if g.closed then g
  else
    let pending := (g.states.flatMap (fun p => (g.heap p.2).queue)).filter
      (fun t => decide ((g.tasks t).phase = .queued))
    { g with closed := true }.continueClose reason pending

/-- The gate goes on with a `close` that a hook had interrupted. -/
def Gate.resume (g : Gate) : Gate :=
  match g.stack with
  | .closing pending reason :: below => { g with stack := below }.continueClose reason pending
  | _ => g

/-- A hook returns: the rest of `#cancelWaiter`, or of the last handler of `#runTask`. -/
def Gate.hookReturns (g : Gate) : Gate :=
  match g.stack with
  | .cancelHook t :: below =>
    ({ g with stack := below }.drain (g.tasks t).key (g.tasks t).state).resume
  | .releaseHook t outcome :: below =>
    (({ g with stack := below }.drain (g.tasks t).key (g.tasks t).state).settle t .done
      outcome).resume
  | _ => g

/-! ## 5. Running a task -/

/-- The microtask that calls the function of a started task. -/
def Gate.callTask (g : Gate) (t : ℕ) : Gate :=
  if g.stack = [] ∧ t < g.nextTask ∧ (g.tasks t).phase = .scheduled then
    g.setTask t { g.tasks t with phase := .running, starts := (g.tasks t).starts + 1 }
  else g

/-- The function settles; `onBeforeRelease` runs while the lock is still held. -/
def Gate.taskSettles (g : Gate) (t : ℕ) (result : TaskResult) : Gate :=
  if g.stack = [] ∧ t < g.nextTask ∧ (g.tasks t).phase = .running then g.move t (.cleaning result)
  else g

/-- `#runBeforeRelease`: an error of the hook is the result, unless the task threw an object. -/
def runBeforeRelease (result : TaskResult) (hookThrew : Bool) : GateOutcome :=
  match hookThrew, result with
  | false, .fulfilled => .fulfilled
  | false, .threw _ => .threw
  | true, .threw true => .threw
  | true, _ => .cleanupThrew

/-- `release` of a task: `Math.max(0, activeReaders - 1)`, or no active writer. -/
def Gate.release (g : Gate) (t : ℕ) : Gate :=
  let s := (g.tasks t).state
  let state := g.heap s
  match (g.tasks t).mode with
  | .nonBlocking => g.setState s { state with activeReaders := state.activeReaders - 1 }
  | .blocking => g.setState s { state with activeWriter := false }

/-- `onBeforeRelease` settles: the lock is given back, and `onRelease` runs. -/
def Gate.beforeReleaseSettles (g : Gate) (t : ℕ) (hookThrew : Bool) : Gate :=
  match g.stack, (g.tasks t).phase with
  | [], .cleaning result =>
    if t < g.nextTask then
      { (g.release t).move t .releasing with
        stack := [.releaseHook t (runBeforeRelease result hookThrew)] }
    else g
  | _, _ => g

/-- The abort of a waiter's signal. -/
def Gate.abort (g : Gate) (t : ℕ) : Gate :=
  if t < g.nextTask ∧ (g.tasks t).hasSignal then (g.cancelWaiter t .aborted).1 else g

/-- The timer of a waiter. -/
def Gate.timeout (g : Gate) (t : ℕ) : Gate :=
  match g.stack, (g.tasks t).maxWaitMs with
  | [], some ms =>
    if t < g.nextTask ∧ 0 < ms then (g.cancelWaiter t (.timedOut ms)).1 else g
  | _, _ => g

/-- The microtask of `#cleanupState`: the map forgets the state if it is still the one of the key,
and idle. -/
def Gate.cleanupMicrotask (g : Gate) (key : String) (s : ℕ) : Gate :=
  if g.stack = [] ∧ (key, s) ∈ g.cleanups then
    { g with
      cleanups := g.cleanups.erase (key, s)
      states := if g.states.lookup key = some s ∧ (g.heap s).isIdle then
        g.states.filter (fun p => p.1 != key) else g.states }
  else g

/-! ## 6. Events -/

/-- What may happen next: a call (of the program or of a hook that runs), or a step of the event
loop. -/
inductive GateEvent
  | runBlocking (call : GateCall)
  | runNonBlocking (call : GateCall)
  | abort (task : ℕ)
  | close (reason : String)
  | hookReturns
  | timeout (task : ℕ)
  | callTask (task : ℕ)
  | taskSettles (task : ℕ) (result : TaskResult)
  | beforeReleaseSettles (task : ℕ) (hookThrew : Bool)
  | cleanupMicrotask (key : String) (state : ℕ)
  deriving DecidableEq, Repr

/-- The gate after an event; one that cannot happen changes nothing. -/
def assetGateStep (g : Gate) (event : GateEvent) : Gate :=
  match event with
  | .runBlocking call => g.runBlocking call
  | .runNonBlocking call => g.runNonBlocking call
  | .abort t => g.abort t
  | .close reason => g.close reason
  | .hookReturns => g.hookReturns
  | .timeout t => g.timeout t
  | .callTask t => g.callTask t
  | .taskSettles t result => g.taskSettles t result
  | .beforeReleaseSettles t hookThrew => g.beforeReleaseSettles t hookThrew
  | .cleanupMicrotask key s => g.cleanupMicrotask key s

end PosseClient
