/-
# The keyed gate

`KeyedAsyncGate` of `AsyncGate.js` and the `AsyncWorkQueue` it keeps for each key in use.  A task
waits in the queue of its key, `#drain` starts it, its function is called an immediate later, and
its slot is given back before its promise is settled; or it is cancelled while it waits.

* As in the reader/writer gate, user code runs inside the gate only as a hook, and a `WorkFrame` on
  `stack` is a hook that runs, with what the gate still has to do when it returns.
* Queues have identities (`heap`), and the map from keys to them (`queues`) drops an idle one only
  in a later microtask (`cleanups`), so that a key served by two queues could be expressed.
* `immediates` is the queue of the event loop: started tasks in the order of their `setImmediate`.
-/
import PosseClient.Concurrency.GateInvariant

namespace PosseClient

/-! ## 1. Tasks, queues, the gate -/

/-- A task of a queue.  `started` and `cancelled` are phases; `starts` counts the calls of its
function, `settled` lists the calls of `resolve` and `reject` of its promise. -/
structure WorkTask where
  key : String := "global"
  queue : ℕ := 0
  label : String := "work"
  requestedAt : ℕ := 0
  depthAtEnqueue : ℕ := 0
  inFlightAtEnqueue : ℕ := 0
  maxWaitMs : Option ℕ := none
  hasSignal : Bool := false
  phase : TaskPhase := .queued
  starts : ℕ := 0
  settled : List GateOutcome := []
  deriving DecidableEq, Repr

/-- An `AsyncWorkQueue`; its limit is that of the gate. -/
structure WorkQueue where
  inFlight : ℕ := 0
  pending : List ℕ := []
  closed : Bool := false
  deriving DecidableEq, Repr

/-- What the gate has still to do: the rest of `#cancelTask`, the rest of the last handler of a
task, or the rest of the two loops of `close`. -/
inductive WorkFrame
  | cancelHook (task : ℕ)
  | releaseHook (task : ℕ) (outcome : GateOutcome)
  | closing (pending : List ℕ) (queues : List ℕ) (reason : String)
  deriving DecidableEq, Repr

/-- A `KeyedAsyncGate`. -/
structure KeyedGate where
  name : String := "async gate"
  maxConcurrency : ℕ := 1
  closed : Bool := false
  queues : List (String × ℕ) := []
  heap : ℕ → WorkQueue := fun _ => {}
  nextQueue : ℕ := 0
  tasks : ℕ → WorkTask := fun _ => {}
  nextTask : ℕ := 0
  stack : List WorkFrame := []
  cleanups : List (String × ℕ) := []
  immediates : List ℕ := []

/-- The `#maxConcurrency` of every queue of the gate. -/
def KeyedGate.limit (g : KeyedGate) : ℕ := max 1 g.maxConcurrency

/-- `task.cancelled`. -/
def WorkTask.cancelled (task : WorkTask) : Bool := task.phase == .cancelled

/-- Write a task. -/
def KeyedGate.setTask (g : KeyedGate) (t : ℕ) (task : WorkTask) : KeyedGate :=
  { g with tasks := Function.update g.tasks t task }

/-- Write a queue. -/
def KeyedGate.setQueue (g : KeyedGate) (q : ℕ) (queue : WorkQueue) : KeyedGate :=
  { g with heap := Function.update g.heap q queue }

/-- Move a task to a phase. -/
def KeyedGate.move (g : KeyedGate) (t : ℕ) (phase : TaskPhase) : KeyedGate :=
  g.setTask t { g.tasks t with phase := phase }

/-- `task.resolve` or `task.reject`. -/
def KeyedGate.settle (g : KeyedGate) (t : ℕ) (phase : TaskPhase) (outcome : GateOutcome) :
    KeyedGate :=
  g.setTask t { g.tasks t with phase := phase, settled := (g.tasks t).settled ++ [outcome] }

/-! ## 2. Starting and cancelling tasks -/

/-- `this.#pending.shift()`. -/
def KeyedGate.shift (g : KeyedGate) (q : ℕ) (rest : List ℕ) : KeyedGate :=
  g.setQueue q { g.heap q with pending := rest }

/-- The body of the loop of `#drain`: the task is started, and its function is called in an
immediate. -/
def KeyedGate.start (g : KeyedGate) (q t : ℕ) : KeyedGate :=
  { (g.setQueue q { g.heap q with inFlight := (g.heap q).inFlight + 1 }).move t .scheduled with
    immediates := g.immediates ++ [t] }

/-- The loop of `#drain` over the tasks that wait. -/
def KeyedGate.drainLoop (q : ℕ) : List ℕ → KeyedGate → KeyedGate
  | [], g => g
  | t :: rest, g =>
    if (g.heap q).inFlight < g.limit then
      if (g.tasks t).cancelled then drainLoop q rest (g.shift q rest)
      else drainLoop q rest ((g.shift q rest).start q t)
    else g

/-- `#drain`. -/
def KeyedGate.drain (g : KeyedGate) (q : ℕ) : KeyedGate :=
  if (g.heap q).closed then g else g.drainLoop q (g.heap q).pending

/-- `#cancelTask` up to the hook, and its answer; `cleanupQueueIfIdle` and `#drain` follow when the
hook returns. -/
def KeyedGate.cancelTask (g : KeyedGate) (t : ℕ) (outcome : GateOutcome) : KeyedGate × Bool :=
  let task := g.tasks t
  if task.phase ≠ .queued then (g, false)
  else
    let queue := g.heap task.queue
    let removed := g.setQueue task.queue { queue with pending := queue.pending.filter (· != t) }
    let rejected := removed.settle t .cancelled outcome
    ({ rejected with stack := .cancelHook t :: g.stack }, true)

/-- The queue's `snapshot()` has nothing in flight and nothing pending. -/
def KeyedGate.queueIdle (g : KeyedGate) (q : ℕ) : Bool :=
  (g.heap q).inFlight == 0 && ((g.heap q).pending.filter (fun t => !(g.tasks t).cancelled)) == []

/-- `cleanupQueueIfIdle`: an idle queue is dropped in a microtask. -/
def KeyedGate.cleanupQueueIfIdle (g : KeyedGate) (key : String) (q : ℕ) : KeyedGate :=
  if g.queueIdle q then { g with cleanups := g.cleanups ++ [(key, q)] } else g

/-! ## 3. Calls -/

/-- The arguments of `run`; the signal says whether it is aborted, and `waitMs` is `none` where the
wait is unbounded. -/
structure WorkCall where
  key : Option String := none
  label : String := "work"
  waitMs : Option ℕ := some 30000
  signal : Option Bool := none
  now : ℕ := 0
  deriving DecidableEq, Repr

/-- A new object among the tasks. -/
def KeyedGate.addTask (g : KeyedGate) (task : WorkTask) : KeyedGate :=
  { g.setTask g.nextTask task with nextTask := g.nextTask + 1 }

/-- A call that is answered with a rejected promise. -/
def KeyedGate.refuse (g : KeyedGate) (call : WorkCall) : KeyedGate :=
  g.addTask { key := normalizeGateKey call.key, label := call.label, requestedAt := call.now,
              phase := .refused, settled := [.closed "gate closed"] }

/-- The task of a call. -/
def KeyedGate.newTask (g : KeyedGate) (call : WorkCall) (q : ℕ) : WorkTask where
  key := normalizeGateKey call.key
  queue := q
  label := call.label
  requestedAt := call.now
  depthAtEnqueue := ((g.heap q).pending.filter (fun t => !(g.tasks t).cancelled)).length
  inFlightAtEnqueue := (g.heap q).inFlight
  maxWaitMs := call.waitMs
  hasSignal := call.signal.isSome

/-- `this.#pending.push(task)`. -/
def KeyedGate.push (g : KeyedGate) (q t : ℕ) : KeyedGate :=
  g.setQueue q { g.heap q with pending := (g.heap q).pending ++ [t] }

/-- `AsyncWorkQueue.run`. -/
def KeyedGate.queueRun (g : KeyedGate) (q : ℕ) (call : WorkCall) : KeyedGate :=
  if (g.heap q).closed then g.refuse call
  else
    let t := g.nextTask
    let added := g.addTask (g.newTask call q)
    if call.signal = some true then (added.cancelTask t .aborted).1
    else
      let drained := (added.push q t).drain q
      -- `#cancelTask` does nothing to a task that has been started
      if call.waitMs = some 0 then (drained.cancelTask t (.timedOut 0)).1 else drained

/-- The queue of a key: the one of the map, or a new one. -/
def KeyedGate.queueFor (g : KeyedGate) (key : String) : KeyedGate × ℕ :=
  match g.queues.lookup key with
  | some q => (g, q)
  | none =>
    ({ g.setQueue g.nextQueue {} with
       queues := g.queues ++ [(key, g.nextQueue)], nextQueue := g.nextQueue + 1 }, g.nextQueue)

/-- `KeyedAsyncGate.run`. -/
def KeyedGate.run (g : KeyedGate) (call : WorkCall) : KeyedGate :=
  if g.closed then g.refuse call
  else
    let (found, q) := g.queueFor (normalizeGateKey call.key)
    found.queueRun q call

/-! ## 4. Closing, and what follows a hook -/

/-- The loop of `AsyncWorkQueue.close` over the tasks that wait: it stops at the hook of the first
one it cancels, and answers whether it has stopped. -/
def KeyedGate.closeTasks (reason : String) (queues : List ℕ) :
    List ℕ → KeyedGate → KeyedGate × Bool
  | [], g => (g, false)
  | t :: rest, g =>
    let cancelled := { g with stack := .closing rest queues reason :: g.stack }.cancelTask t
      (.closed reason)
    if cancelled.2 then cancelled else closeTasks reason queues rest g

/-- `AsyncWorkQueue.close` up to its loop: the tasks it has to cancel. -/
def KeyedGate.closeQueue (g : KeyedGate) (q : ℕ) : KeyedGate × List ℕ :=
  if (g.heap q).closed then (g, [])
  else (g.setQueue q { g.heap q with closed := true },
    (g.heap q).pending.filter (fun t => decide ((g.tasks t).phase = .queued)))

/-- The loop of `KeyedAsyncGate.close` over the queues, after the tasks that are left of the one
it is at. -/
def KeyedGate.continueClose (reason : String) : List ℕ → List ℕ → KeyedGate → KeyedGate
  | [], pending, g => (g.closeTasks reason [] pending).1
  | q :: queues, pending, g =>
    let (stopped, hook) := g.closeTasks reason (q :: queues) pending
    if hook then stopped
    else
      let (closed, waiting) := stopped.closeQueue q
      closed.continueClose reason queues waiting

/-- `KeyedAsyncGate.close`. -/
def KeyedGate.close (g : KeyedGate) (reason : String) : KeyedGate :=
  if g.closed then g
  else { g with closed := true }.continueClose reason (g.queues.map Prod.snd) []

/-- The gate goes on with a `close` that a hook had interrupted. -/
def KeyedGate.resume (g : KeyedGate) : KeyedGate :=
  match g.stack with
  | .closing pending queues reason :: below =>
    { g with stack := below }.continueClose reason queues pending
  | _ => g

/-- What follows a hook that returns or throws: the queue is dropped if it is idle, and drained. -/
def KeyedGate.afterHook (g : KeyedGate) (t : ℕ) : KeyedGate :=
  let task := g.tasks t
  (g.cleanupQueueIfIdle task.key task.queue).drain task.queue

/-- A hook returns or throws: the rest of `#cancelTask`, or of the last handler of a task. -/
def KeyedGate.hookReturns (g : KeyedGate) : KeyedGate :=
  match g.stack with
  | .cancelHook t :: below => ({ g with stack := below }.afterHook t).resume
  | .releaseHook t outcome :: below =>
    (({ g with stack := below }.afterHook t).settle t .done outcome).resume
  | _ => g

/-! ## 5. The event loop -/

/-- The next immediate: the function of a started task is called. -/
def KeyedGate.callTask (g : KeyedGate) : KeyedGate :=
  match g.stack, g.immediates with
  | [], t :: rest =>
    { g.setTask t { g.tasks t with phase := .running, starts := (g.tasks t).starts + 1 } with
      immediates := rest }
  | _, _ => g

/-- The function settles; `onBeforeRelease` runs while the slot is still taken. -/
def KeyedGate.taskSettles (g : KeyedGate) (t : ℕ) (result : TaskResult) : KeyedGate :=
  if g.stack = [] ∧ t < g.nextTask ∧ (g.tasks t).phase = .running then g.move t (.cleaning result)
  else g

/-- `onBeforeRelease` settles: the slot is given back, `Math.max(0, this.#inFlight - 1)`, and
`onRelease` runs. -/
def KeyedGate.beforeReleaseSettles (g : KeyedGate) (t : ℕ) (hookThrew : Bool) : KeyedGate :=
  match g.stack, (g.tasks t).phase with
  | [], .cleaning result =>
    if t < g.nextTask then
      let queue := g.heap (g.tasks t).queue
      let freed := g.setQueue (g.tasks t).queue { queue with inFlight := queue.inFlight - 1 }
      { freed.move t .releasing with
        stack := [.releaseHook t (runBeforeRelease result hookThrew)] }
    else g
  | _, _ => g

/-- The abort of a task's signal. -/
def KeyedGate.abort (g : KeyedGate) (t : ℕ) : KeyedGate :=
  if t < g.nextTask ∧ (g.tasks t).hasSignal then (g.cancelTask t .aborted).1 else g

/-- The timer of a task. -/
def KeyedGate.timeout (g : KeyedGate) (t : ℕ) : KeyedGate :=
  match g.stack, (g.tasks t).maxWaitMs with
  | [], some ms => if t < g.nextTask ∧ 0 < ms then (g.cancelTask t (.timedOut ms)).1 else g
  | _, _ => g

local instance lawfulBEq_cleanup : LawfulBEq (String × ℕ) := inferInstance

/-- The microtask of `cleanupQueueIfIdle`: the map drops the queue if it is still the one of the
key, and idle. -/
def KeyedGate.cleanupMicrotask (g : KeyedGate) (key : String) (q : ℕ) : KeyedGate :=
  if g.stack = [] ∧ (key, q) ∈ g.cleanups then
    { g with
      cleanups := g.cleanups.erase (key, q)
      queues := if g.queues.lookup key = some q ∧ g.queueIdle q then
        g.queues.filter (fun p => p.1 != key) else g.queues }
  else g

/-! ## 6. Events -/

/-- What may happen next: a call (of the program or of a hook that runs), or a step of the event
loop. -/
inductive WorkEvent
  | run (call : WorkCall)
  | abort (task : ℕ)
  | close (reason : String)
  | hookReturns
  | timeout (task : ℕ)
  | callTask
  | taskSettles (task : ℕ) (result : TaskResult)
  | beforeReleaseSettles (task : ℕ) (hookThrew : Bool)
  | cleanupMicrotask (key : String) (queue : ℕ)
  deriving DecidableEq, Repr

/-- The gate after an event; one that cannot happen changes nothing. -/
def keyedGateStep (g : KeyedGate) (event : WorkEvent) : KeyedGate :=
  match event with
  | .run call => g.run call
  | .abort t => g.abort t
  | .close reason => g.close reason
  | .hookReturns => g.hookReturns
  | .timeout t => g.timeout t
  | .callTask => g.callTask
  | .taskSettles t result => g.taskSettles t result
  | .beforeReleaseSettles t hookThrew => g.beforeReleaseSettles t hookThrew
  | .cleanupMicrotask key q => g.cleanupMicrotask key q

end PosseClient
