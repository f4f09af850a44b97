/-
# Release barriers of a resource gate

`AsyncResourceGate` of `AsyncGate.js`: a reader/writer gate whose writes register barriers that
others wait for.  A barrier is resolved from three places, `onRelease`, `onCancel` and the handler
of the rejected promise; more than one of them may run for one write.

* The gate may be shared, so that every event of a gate may come in between; a hook that returns
  first resolves the barriers of its write.
* `normalizeKey` is a parameter: the subclasses override it.
-/
import Mathlib.Data.List.AList
import PosseClient.Concurrency.AsyncGate

namespace PosseClient

/-! ## 1. Releases and waits -/

/-- `status` of what a release is resolved with. -/
inductive ReleaseStatus
  | fulfilled | rejected
  deriving DecidableEq, Repr

/-- A release; `task` is the write that registers it. -/
structure Release where
  barrierKey : String := ""
  resourceKey : String := ""
  label : String := "work"
  name : String := ""
  task : ℕ := 0
  resolved : Option ReleaseStatus := none
  deriving DecidableEq, Repr

/-- How the promise of `waitForRelease` settles. -/
inductive WaitOutcome
  | idle | released | timedOut
  deriving DecidableEq, Repr

/-- A call of `waitForRelease` and the releases it waits for. -/
structure ReleaseWait where
  barrierKey : String := ""
  captured : List ℕ := []
  maxWaitMs : ℕ := 0
  outcome : Option WaitOutcome := none
  deriving DecidableEq, Repr

/-- `#barriers`; the order of its keys is not read. -/
abbrev BarrierSets := AList (fun _ : String => List ℕ)

/-- A resource gate.  `releasesOf` holds the `releases` that the hooks of a write close over, and
`caught` the writes whose rejection has been handled. -/
structure ResourceGate where
  name : String := "async resource"
  gate : Gate := {}
  barriers : BarrierSets := ∅
  releases : ℕ → Release := fun _ => {}
  nextRelease : ℕ := 0
  releasesOf : ℕ → List ℕ := fun _ => []
  caught : List ℕ := []
  waits : ℕ → ReleaseWait := fun _ => {}
  nextWait : ℕ := 0

/-! ## 2. Barrier keys -/

/-- `options.barrierKey`. -/
inductive BarrierOption
  | absent
  | single (key : String)
  | several (keys : List (Option String))
  deriving DecidableEq, Repr

/-- The options of `write`. -/
structure WriteCall where
  key : Option String := none
  label : Option String := none
  waitMs : Option ℕ := some 30000
  signal : Option Bool := none
  priority : ℚ := 0
  now : ℕ := 0
  barrierKey : BarrierOption := .absent
  barrierName : Option String := none
  releaseWaitMs : Option ℕ := none
  deriving DecidableEq, Repr

/-- The first of two texts that is there and not empty. -/
def orText (text : Option String) (other : String) : String := (text.filter (· != "")).getD other

/-- `normalizeBarrierKey`. -/
def normalizeBarrierKey (key : Option String) : String := normalizeGateKey key

/-- `#defaultBlockingReleaseKey`. -/
def ResourceGate.defaultBlockingReleaseKey (rg : ResourceGate) (normalizedKey : String) : String :=
  rg.name ++ ":blocking:" ++ normalizedKey

/-- `#barrierKeys`. -/
def ResourceGate.barrierKeys (rg : ResourceGate) (normalizedKey : String) (option : BarrierOption) :
    List String :=
  let explicit := match option with
    | .absent => []
    | .single key => if key = "" then [] else [normalizeBarrierKey (some key)]
    | .several keys => keys.map normalizeBarrierKey
  ((rg.defaultBlockingReleaseKey normalizedKey :: explicit).filter (· != "")).eraseDups

/-- `#releaseLookupKeys`. -/
def ResourceGate.releaseLookupKeys (normalizeKey : Option String → String) (rg : ResourceGate)
    (key : Option String) : List String :=
  ([normalizeBarrierKey key, rg.defaultBlockingReleaseKey (normalizeKey key)].filter
    (· != "")).eraseDups

/-! ## 3. Barrier sets -/

/-- The releases of a barrier key. -/
def activeReleases (barriers : BarrierSets) (key : String) : List ℕ :=
  (barriers.lookup key).getD []

/-- The set of a key is made where it is missing, and gets one release more. -/
def addRelease (barriers : BarrierSets) (key : String) (r : ℕ) : BarrierSets :=
  barriers.insert key (activeReleases barriers key ++ [r])

/-- A release leaves the set of its key; an empty set is deleted. -/
def deleteRelease (barriers : BarrierSets) (key : String) (r : ℕ) : BarrierSets :=
  match barriers.lookup key with
  | none => barriers
  | some active =>
    if active.filter (· != r) = [] then barriers.erase key
    else barriers.insert key (active.filter (· != r))

/-- One pass of the loop of `#registerBlockingBarriers`, for the write that will be task `t`. -/
def ResourceGate.registerBarrier (t : ℕ) (normalizedKey : String) (call : WriteCall)
    (rg : ResourceGate) (barrierKey : String) : ResourceGate :=
  { rg with
    barriers := addRelease rg.barriers barrierKey rg.nextRelease
    releases := Function.update rg.releases rg.nextRelease
      { barrierKey := barrierKey
        resourceKey := normalizedKey
        label := orText call.label "work"
        name := orText call.barrierName (orText call.label barrierKey)
        task := t }
    nextRelease := rg.nextRelease + 1
    releasesOf := Function.update rg.releasesOf t (rg.releasesOf t ++ [rg.nextRelease]) }

/-- `#registerBlockingBarriers`. -/
def ResourceGate.registerBlockingBarriers (rg : ResourceGate) (normalizedKey : String)
    (call : WriteCall) : ResourceGate :=
  (rg.barrierKeys normalizedKey call.barrierKey).foldl
    (ResourceGate.registerBarrier rg.gate.nextTask normalizedKey call) rg

/-- One pass of the loop of `#releaseBarriers`; a promise that is resolved stays as it is. -/
def ResourceGate.releaseBarrier (status : ReleaseStatus) (rg : ResourceGate) (r : ℕ) :
    ResourceGate :=
  let release := rg.releases r
  { rg with
    barriers := deleteRelease rg.barriers release.barrierKey r
    releases := Function.update rg.releases r
      { release with resolved := some (release.resolved.getD status) } }

/-- `#releaseBarriers`. -/
def ResourceGate.releaseBarriers (rg : ResourceGate) (releases : List ℕ) (status : ReleaseStatus) :
    ResourceGate :=
  releases.foldl (ResourceGate.releaseBarrier status) rg

/-! ## 4. Calls and hooks -/

section Calls

variable (normalizeKey : Option String → String)

/-- `write`: the barriers first, then the gate.  The write is the next task of the gate. -/
def ResourceGate.write (rg : ResourceGate) (call : WriteCall) : ResourceGate :=
  let normalized := normalizeKey call.key
  let registered := rg.registerBlockingBarriers normalized call
  { registered with
    gate := rg.gate.runBlocking
      { key := some normalized, mode := .blocking, label := call.label.getD "work",
        waitMs := call.waitMs, signal := call.signal, priority := call.priority, now := call.now } }

/-- The releases a `waitForRelease` of some keys waits for. -/
def ResourceGate.capturedReleases (rg : ResourceGate) (keys : List String) : List ℕ :=
  keys.flatMap (activeReleases rg.barriers)

/-- `waitForRelease` of a key; a handle answers with the promise it has. -/
def ResourceGate.waitForRelease (rg : ResourceGate) (key : Option String) (waitMs : Option ℕ) :
    ResourceGate :=
  let keys := rg.releaseLookupKeys normalizeKey key
  let captured := rg.capturedReleases keys
  -- the last key that something is registered under
  let selected := (keys.filter (fun k => activeReleases rg.barriers k != [])).getLast?.getD
    (orText keys.head? "global")
  { rg with
    waits := Function.update rg.waits rg.nextWait
      { barrierKey := selected
        captured := captured
        maxWaitMs := waitMs.getD 30000
        outcome := if captured = [] then some .idle else none }
    nextWait := rg.nextWait + 1 }

/-- `writeWithRelease`: a write, and a wait for its first barrier key. -/
def ResourceGate.writeWithRelease (rg : ResourceGate) (call : WriteCall) : ResourceGate :=
  let explicit := match call.barrierKey with
    | .absent => none
    | .single key => some key
    | .several keys => keys.head?.join
  let barrierKey := normalizeBarrierKey
    (orText explicit (rg.defaultBlockingReleaseKey (normalizeKey call.key)))
  let writeBarrierKey := match call.barrierKey with
    | .several keys => .several keys
    | _ => .single barrierKey
  (rg.write normalizeKey { call with barrierKey := writeBarrierKey }).waitForRelease normalizeKey
    (some barrierKey) call.releaseWaitMs

/-- `status` of the information that `onRelease` gets. -/
def GateOutcome.status : GateOutcome → ReleaseStatus
  | .fulfilled => .fulfilled
  | _ => .rejected

/-- A hook of the gate returns; the hooks of a write end with `#releaseBarriers`. -/
def ResourceGate.hookReturns (rg : ResourceGate) : ResourceGate :=
  match rg.gate.stack with
  | .cancelHook t :: _ =>
    { rg.releaseBarriers (rg.releasesOf t) .rejected with gate := rg.gate.hookReturns }
  | .releaseHook t outcome :: _ =>
    { rg.releaseBarriers (rg.releasesOf t) outcome.status with gate := rg.gate.hookReturns }
  | _ => { rg with gate := rg.gate.hookReturns }

/-- The promise of the task is rejected. -/
def GateTask.rejected (task : GateTask) : Bool := task.settled.any (· != .fulfilled)

/-- The handler of the rejected promise that `write` got from the gate. -/
def ResourceGate.catchRejection (rg : ResourceGate) (t : ℕ) : ResourceGate :=
  if rg.gate.stack = [] ∧ t < rg.gate.nextTask ∧ (rg.gate.tasks t).rejected ∧ t ∉ rg.caught then
    { rg.releaseBarriers (rg.releasesOf t) .rejected with caught := t :: rg.caught }
  else rg

/-- All the promises of a wait have resolved. -/
def ResourceGate.waitSettles (rg : ResourceGate) (w : ℕ) : ResourceGate :=
  if rg.gate.stack = [] ∧ w < rg.nextWait ∧ (rg.waits w).outcome = none ∧
      ∀ r ∈ (rg.waits w).captured, (rg.releases r).resolved.isSome then
    { rg with waits := Function.update rg.waits w { rg.waits w with outcome := some .released } }
  else rg

/-- The timer of a wait. -/
def ResourceGate.waitTimeout (rg : ResourceGate) (w : ℕ) : ResourceGate :=
  if rg.gate.stack = [] ∧ w < rg.nextWait ∧ (rg.waits w).outcome = none ∧
      0 < (rg.waits w).maxWaitMs then
    { rg with waits := Function.update rg.waits w { rg.waits w with outcome := some .timedOut } }
  else rg

/-- What may happen next. -/
inductive ResourceEvent
  | write (call : WriteCall)
  | writeWithRelease (call : WriteCall)
  | waitForRelease (key : Option String) (waitMs : Option ℕ)
  | gate (event : GateEvent)
  | catchRejection (task : ℕ)
  | waitSettles (wait : ℕ)
  | waitTimeout (wait : ℕ)
  deriving DecidableEq, Repr

/-- The resource gate after an event. -/
def resourceStep (rg : ResourceGate) (event : ResourceEvent) : ResourceGate :=
  match event with
  | .write call => rg.write normalizeKey call
  | .writeWithRelease call => rg.writeWithRelease normalizeKey call
  | .waitForRelease key waitMs => rg.waitForRelease normalizeKey key waitMs
  | .gate .hookReturns => rg.hookReturns
  | .gate event => { rg with gate := assetGateStep rg.gate event }
  | .catchRejection t => rg.catchRejection t
  | .waitSettles w => rg.waitSettles w
  | .waitTimeout w => rg.waitTimeout w

end Calls

end PosseClient
