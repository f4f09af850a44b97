/-
# Worktree locks

`worktree-locks.js` and `WorktreeLock.js`: a lock is a file with the metadata of its owner.  An
acquisition creates the file exclusively; where it exists, the waiter takes its `stat`, reads its
metadata, asks whether the owner lives, decides, and removes the file if token and `stat` are still
those it saw.  A release removes the file of its own token, or marks it released.

* The body of a `withLockTransition` is one step.  Every other read is a step of its own, and a read
  of the metadata can fall into a write and see no metadata.
* Every answer of the outside is part of the step: the clock, the identity of a new file, a busy
  arbiter, an error of the file system.  Owner tokens are never issued twice.
* Threads have lifetimes in the registry of their process (`ThreadLifetimeRegistry.js`); a lifetime
  is retired at the exit event of its worker.
* `decisions` is read by no step: what the waiters had seen that decided to reclaim.
-/
import PosseClient.Lib.Runs

namespace PosseClient

/-! ## 1. Lock files -/

/-- A lifetime of a worker thread: a slot of the registry of its process, and a generation. -/
structure Lifetime where
  registry : ℕ
  slot : ℕ
  generation : ℤ
  deriving DecidableEq, Repr

/-- The metadata of a lock file.  Dates are parsed, in milliseconds; a `pid` that is no positive
integer stands for what `isProcessAlive` does not ask about. -/
structure LockMetadata where
  pid : Option ℤ := none
  threadId : Option ℤ := none
  lifetime : Option Lifetime := none
  ownerToken : Option String := none
  createdAt : Option ℚ := none
  releasedAt : Option ℚ := none
  deriving DecidableEq, Repr

/-- What `fs.statSync` tells. -/
structure LockStat where
  dev : ℕ := 0
  ino : ℕ := 0
  size : ℕ := 0
  mtimeMs : ℚ := 0
  deriving DecidableEq, Repr

/-- A lock file; its content is `none` where it is no JSON object. -/
structure LockFile where
  content : Option LockMetadata
  stat : LockStat
  deriving DecidableEq, Repr

/-- `parsed?.ownerToken || null`. -/
def ownerTokenOf (metadata : Option LockMetadata) : Option String :=
  (metadata.bind (·.ownerToken)).filter (· != "")

/-- The token a file carries. -/
def LockFile.token (file : LockFile) : Option String := ownerTokenOf file.content

/-- `statMatchesExpected`. -/
def statMatchesExpected (file : Option LockFile) (expected : LockStat) : Bool :=
  file.any fun f => decide (f.stat.size = expected.size ∧ f.stat.mtimeMs = expected.mtimeMs ∧
    f.stat.dev = expected.dev ∧ f.stat.ino = expected.ino)

/-- How a transition ends beside what it decides: the arbiter may be busy, and the file system may
fail, for a write before or after it has emptied the file. -/
inductive TransitionOutcome
  | ok
  | busy
  | ioError (emptied : Bool)
  deriving DecidableEq, Repr

/-- `fs.rmSync` with `force`, in `removeLockIfOwnerUnderTransition`. -/
def rmLock (file : Option LockFile) (outcome : TransitionOutcome) : Option LockFile × Bool :=
  if outcome = .ok then (none, true) else (file, false)

/-- `removeLockIfOwner`: what is at the path afterwards, and the answer. -/
def removeLockIfOwner (file : Option LockFile) (ownerToken : Option String) (allowUnowned : Bool)
    (expectedStat : Option LockStat) (outcome : TransitionOutcome) : Option LockFile × Bool :=
  if outcome = .busy then (file, false)
  else match ownerToken with
    | some token =>
      if file = none then (none, true)
      else if (file.bind (·.content)).bind (·.ownerToken) ≠ some token then (file, false)
      else if expectedStat.any (fun expected => !statMatchesExpected file expected) then (file, false)
      else rmLock file outcome
    | none =>
      if allowUnowned then
        if expectedStat.all (fun expected => !statMatchesExpected file expected) then (file, false)
        else if (ownerTokenOf (file.bind (·.content))).isSome then (file, false)
        else rmLock file outcome
      else (file, false)

/-- `writeReleasedMarker`: what is at the path afterwards, and the answer. -/
def writeReleasedMarker (file : Option LockFile) (ownerToken : String) (pid threadId : ℤ)
    (nowMs : ℚ) (stat : LockStat) (outcome : TransitionOutcome) : Option LockFile × Bool :=
  match file.bind (·.content) with
  | none => (file, false)
  | some metadata =>
    if metadata.ownerToken ≠ some ownerToken then (file, false)
    else match outcome with
      | .ok => (some ⟨some { metadata with
          pid := metadata.pid.or (some pid), threadId := metadata.threadId.or (some threadId)
          createdAt := metadata.createdAt.or (some nowMs), releasedAt := some nowMs }, stat⟩, true)
      | .ioError true => (some ⟨none, stat⟩, false)
      | _ => (file, false)

/-! ## 2. The decision to reclaim -/

/-- `WORKTREE_LOCK_LIVE_PID_STALE_MULTIPLIER`. -/
def worktreeLockLivePidStaleMultiplier : ℚ := 10

/-- What a waiter has seen of a lock file, and of the world: whether the owner's process lives
(`isProcessAlive` may not know), whether it is the waiter's own, whether the owner's lifetime has
ended in its registry, whether the owner's thread is the waiter's own, whether the token is active
there, and the clock.  `staleMs` is `none` where it is not finite. -/
structure LockDecision where
  path : String
  stat : LockStat
  metadata : Option LockMetadata
  ownerState : Option Bool
  isOwnProcess : Bool
  hasExited : Bool
  isOwnThread : Bool
  isActive : Bool
  staleMs : Option ℚ
  nowMs : ℚ
  deriving DecidableEq, Repr

/-- `reclaim`, with its `ownerToken` and `stat`. -/
abbrev Reclaim := Option String × LockStat

/-- `reclaimWorktreeLockByAge`. -/
def reclaimWorktreeLockByAge (d : LockDecision) (staleMs : Option ℚ) : Option Reclaim :=
  let referenceMs := (d.metadata.bind (·.createdAt)).getD d.stat.mtimeMs
  if referenceMs ≤ 0 then none
  else
    let ageMs := d.nowMs - referenceMs
    if ageMs < 0 then none
    else if staleMs.any (fun ms => decide (0 < ms ∧ ms < ageMs)) then
      some (ownerTokenOf d.metadata, d.stat)
    else none

/-- `shouldReclaimParsedWorktreeLock`. -/
def shouldReclaimParsedWorktreeLock (d : LockDecision) : Option Reclaim :=
  let reclaim := some (ownerTokenOf d.metadata, d.stat)
  if (d.metadata.bind (·.releasedAt)).isSome then reclaim
  else if d.ownerState = some false then reclaim
  else if (d.metadata.bind (·.pid)).isSome ∧ d.ownerState = some true then
    if d.isOwnProcess then
      if d.hasExited then reclaim
      else if ownerTokenOf d.metadata = none ∨ d.isOwnThread = false ∨ d.isActive then none
      else reclaimWorktreeLockByAge d d.staleMs
    else
      reclaimWorktreeLockByAge d (d.staleMs.map (· * worktreeLockLivePidStaleMultiplier))
  else reclaimWorktreeLockByAge d d.staleMs

/-! ## 3. Processes, threads, handles, waiters -/

/-- The length of the `states` of a registry. -/
def lifetimeSlots : ℕ := 1024

/-- A process, with the `states` of its `ThreadLifetimeRegistry`. -/
structure LockProcess where
  pid : ℤ := 1
  alive : Bool := true
  states : ℕ → ℤ := fun _ => 0

/-- A thread, with its `ACTIVE_WORKTREE_LOCK_TOKENS`. -/
structure LockThread where
  process : ℕ := 0
  threadId : ℤ := 0
  lifetime : Option Lifetime := none
  exited : Bool := false
  activeTokens : List String := []
  deriving DecidableEq, Repr

/-- `hasExited`, in the registry of a process. -/
def hasExited (process : ℕ) (states : ℕ → ℤ) (lifetime : Option Lifetime) : Bool :=
  lifetime.any fun l => decide (l.registry = process ∧ l.slot < lifetimeSlots ∧ 0 < l.generation ∧
    (states l.slot = -l.generation ∨ l.generation < |states l.slot|))

/-- A `WorktreeLock`; `attempt` counts the removals its release has tried. -/
structure LockHandle where
  path : String := ""
  thread : ℕ := 0
  owner : LockMetadata := {}
  released : Bool := false
  attempt : ℕ := 0
  deriving DecidableEq, Repr

/-- How far an `acquireWorktreeLock` or `acquireWorktreeLockAsync` is. -/
inductive AcquirePhase
  | creating
  | contended
  | inspected (stat : LockStat)
  | parsed (stat : LockStat) (metadata : Option LockMetadata)
  | probed (stat : LockStat) (metadata : Option LockMetadata) (ownerState : Option Bool)
  | reclaiming (reclaim : Reclaim)
  | acquired (handle : ℕ)
  | failed
  deriving DecidableEq, Repr

structure LockAttempt where
  thread : ℕ
  path : String
  staleMs : Option ℚ
  phase : AcquirePhase := .creating
  deriving DecidableEq, Repr

structure LockWorld where
  files : String → Option LockFile := fun _ => none
  processes : ℕ → LockProcess := fun _ => {}
  nextProcess : ℕ := 0
  threads : ℕ → LockThread := fun _ => {}
  nextThread : ℕ := 0
  handles : ℕ → LockHandle := fun _ => {}
  nextHandle : ℕ := 0
  attempts : ℕ → Option LockAttempt := fun _ => none
  issued : List String := []
  decisions : List LockDecision := []

/-- `isProcessAlive`; an error of `process.kill` other than ESRCH and EPERM is not clear. -/
def LockWorld.isProcessAlive (w : LockWorld) (pid : ℤ) (unclear : Bool) : Option Bool :=
  if pid ≤ 0 then none
  else if (List.range w.nextProcess).any
      (fun p => (w.processes p).alive && decide ((w.processes p).pid = pid)) then some true
  else if unclear then none else some false

/-- The thread runs. -/
def LockWorld.runs (w : LockWorld) (t : ℕ) : Bool :=
  decide (t < w.nextThread) && !(w.threads t).exited && (w.processes (w.threads t).process).alive

/-- The attempt goes on in another phase. -/
def LockWorld.setPhase (w : LockWorld) (id : ℕ) (a : LockAttempt) (phase : AcquirePhase) :
    LockWorld :=
  { w with attempts := Function.update w.attempts id (some { a with phase := phase }) }

def LockWorld.setFile (w : LockWorld) (path : String) (file : Option LockFile) : LockWorld :=
  { w with files := Function.update w.files path file }

def LockWorld.setHandle (w : LockWorld) (h : ℕ) (handle : LockHandle) : LockWorld :=
  { w with handles := Function.update w.handles h handle }

def LockWorld.setThread (w : LockWorld) (t : ℕ) (thread : LockThread) : LockWorld :=
  { w with threads := Function.update w.threads t thread }

def LockWorld.setProcess (w : LockWorld) (p : ℕ) (process : LockProcess) : LockWorld :=
  { w with processes := Function.update w.processes p process }

/-! ## 4. Steps -/

/-- How the body of `createLockFile` ends where there is no file: an abort or an error of the write
is followed by an `rmSync` that may fail too, and then leaves an empty file. -/
inductive CreateOutcome
  | written
  | busy
  | threw (left : Bool)
  deriving DecidableEq, Repr

/-- `reserve` of the registry: the lifetime of a free slot. -/
def reserveLifetime (process : ℕ) (states : ℕ → ℤ) (slot : Option ℕ) : Option Lifetime :=
  (slot.filter fun s => decide (s < lifetimeSlots ∧ states s ≤ 0 ∧ states s ≠ -2147483647)).map
    fun s => ⟨process, s, |states s| + 1⟩

/-- The states of the registry with the lifetime in them. -/
def LockWorld.reserve (w : LockWorld) (process : ℕ) (lifetime : Option Lifetime) : LockWorld :=
  match lifetime with
  | some l =>
    w.setProcess process { w.processes process with
      states := Function.update (w.processes process).states l.slot l.generation }
  | none => w

/-- A thread of a process starts, a worker with a lifetime if there is a free slot. -/
def LockWorld.startThread (w : LockWorld) (process : ℕ) (threadId : ℤ) (slot : Option ℕ) :
    LockWorld :=
  if process < w.nextProcess ∧ (w.processes process).alive then
    let lifetime := reserveLifetime process (w.processes process).states slot
    { (w.reserve process lifetime).setThread w.nextThread
        { process := process, threadId := threadId, lifetime := lifetime } with
      nextThread := w.nextThread + 1 }
  else w

/-- `retire`, at the exit event of a worker. -/
def LockWorld.retire (w : LockWorld) (t : ℕ) : LockWorld :=
  let p := (w.threads t).process
  match (w.threads t).lifetime with
  | some l =>
    if t < w.nextThread ∧ (w.threads t).exited ∧ (w.processes p).states l.slot = l.generation then
      w.setProcess p { w.processes p with
        states := Function.update (w.processes p).states l.slot (-l.generation) }
    else w
  | none => w

/-- `lockMetadata`. -/
def LockWorld.lockMetadata (w : LockWorld) (t : ℕ) (token : String) (nowMs : ℚ) : LockMetadata where
  pid := some (w.processes (w.threads t).process).pid
  threadId := some (w.threads t).threadId
  lifetime := (w.threads t).lifetime
  ownerToken := some token
  createdAt := some nowMs

/-- `createLockFile`, and the handle where it has made the file. -/
def LockWorld.createLockFile (w : LockWorld) (id : ℕ) (a : LockAttempt) (token : String) (nowMs : ℚ)
    (stat : LockStat) (outcome : CreateOutcome) : LockWorld :=
  if (w.files a.path).isSome ∨ outcome = .busy then w.setPhase id a .contended
  else match outcome with
    | .written =>
      let owner := w.lockMetadata a.thread token nowMs
      let thread := w.threads a.thread
      let created := ((w.setFile a.path (some ⟨some owner, stat⟩)).setHandle w.nextHandle
        { path := a.path, thread := a.thread, owner := owner }).setThread a.thread
          { thread with activeTokens := token :: thread.activeTokens }
      { created.setPhase id a (.acquired w.nextHandle) with
        nextHandle := w.nextHandle + 1, issued := token :: w.issued }
    | _ =>
      let left := decide (outcome = .threw true)
      (w.setFile a.path (if left then some ⟨none, stat⟩ else none)).setPhase id a .failed

/-- What a waiter has seen when it decides. -/
def LockWorld.lockDecision (w : LockWorld) (a : LockAttempt) (stat : LockStat)
    (metadata : Option LockMetadata) (ownerState : Option Bool) (nowMs : ℚ) : LockDecision :=
  let thread := w.threads a.thread
  let process := w.processes thread.process
  { path := a.path, stat := stat, metadata := metadata, ownerState := ownerState
    isOwnProcess := metadata.bind (·.pid) == some process.pid
    hasExited := hasExited thread.process process.states (metadata.bind (·.lifetime))
    isOwnThread := metadata.bind (·.threadId) == some thread.threadId
    isActive := (ownerTokenOf metadata).any (thread.activeTokens.contains ·)
    staleMs := a.staleMs, nowMs := nowMs }

/-- The end of `shouldReclaimWorktreeLock`; a waiter that does not reclaim tries again. -/
def LockWorld.decideReclaim (w : LockWorld) (id : ℕ) (a : LockAttempt) (d : LockDecision) : LockWorld :=
  match shouldReclaimParsedWorktreeLock d with
  | some reclaim => { w.setPhase id a (.reclaiming reclaim) with decisions := d :: w.decisions }
  | none => w.setPhase id a .creating

/-- A step of an attempt whose thread runs. -/
def LockWorld.onAttempt (w : LockWorld) (id : ℕ) (f : LockAttempt → LockWorld) : LockWorld :=
  match w.attempts id with
  | some a => if w.runs a.thread then f a else w
  | none => w

/-- A step of a handle whose thread runs. -/
def LockWorld.onHandle (w : LockWorld) (h : ℕ) (f : LockHandle → LockWorld) : LockWorld :=
  if h < w.nextHandle ∧ w.runs (w.handles h).thread then f (w.handles h) else w

/-- The first part of `release`: the handle is released and its token is no longer active. -/
def LockWorld.release (w : LockWorld) (h : ℕ) (handle : LockHandle) : LockWorld :=
  if handle.released then w
  else
    let thread := w.threads handle.thread
    (w.setHandle h { handle with released := true }).setThread handle.thread
      { thread with activeTokens := thread.activeTokens.filter (handle.owner.ownerToken != some ·) }

/-- A removal that a release tries, five at most; the release ends with the first that succeeds. -/
def LockWorld.releaseRemove (w : LockWorld) (h : ℕ) (handle : LockHandle)
    (outcome : TransitionOutcome) : LockWorld :=
  if handle.released ∧ handle.attempt < 5 then
    let removed := removeLockIfOwner (w.files handle.path) handle.owner.ownerToken false none outcome
    (w.setFile handle.path removed.1).setHandle h
      { handle with attempt := if removed.2 then 6 else handle.attempt + 1 }
  else w

/-- The marker that a release writes where its five removals have failed. -/
def LockWorld.releaseMark (w : LockWorld) (h : ℕ) (handle : LockHandle) (nowMs : ℚ) (stat : LockStat)
    (outcome : TransitionOutcome) : LockWorld :=
  match handle.owner.ownerToken with
  | some token =>
    if handle.released ∧ handle.attempt = 5 then
      let thread := w.threads handle.thread
      let marked := writeReleasedMarker (w.files handle.path) token
        (w.processes thread.process).pid thread.threadId nowMs stat outcome
      (w.setFile handle.path marked.1).setHandle h { handle with attempt := 6 }
    else w
  | none => w

/-- What may happen next. -/
inductive WorktreeLockOp
  | spawn (pid : ℤ)
  | exit (process : ℕ)
  | startThread (process : ℕ) (threadId : ℤ) (slot : Option ℕ)
  | exitThread (thread : ℕ)
  | retire (thread : ℕ)
  | acquire (id thread : ℕ) (path : String) (staleMs : Option ℚ)
  | create (id : ℕ) (token : String) (nowMs : ℚ) (stat : LockStat) (outcome : CreateOutcome)
  | stat (id : ℕ)
  | read (id : ℕ) (torn : Bool)
  | probe (id : ℕ) (unclear : Bool)
  | decide (id : ℕ) (nowMs : ℚ)
  | remove (id : ℕ) (outcome : TransitionOutcome)
  | giveUp (id : ℕ)
  | release (handle : ℕ)
  | releaseRemove (handle : ℕ) (outcome : TransitionOutcome)
  | releaseMark (handle : ℕ) (nowMs : ℚ) (stat : LockStat) (outcome : TransitionOutcome)
  deriving DecidableEq, Repr

/-- The world after a step; one that cannot happen changes nothing. -/
def worktreeLockStep (w : LockWorld) : WorktreeLockOp → LockWorld
  | .spawn pid =>
    if w.isProcessAlive pid false = some false then
      { w.setProcess w.nextProcess { pid := pid } with nextProcess := w.nextProcess + 1 }
    else w
  | .exit p => w.setProcess p { w.processes p with alive := false }
  | .startThread p threadId slot => w.startThread p threadId slot
  | .exitThread t => w.setThread t { w.threads t with exited := true }
  | .retire t => w.retire t
  | .acquire id t path staleMs =>
    if w.attempts id = none ∧ w.runs t then
      { w with attempts := Function.update w.attempts id (some ⟨t, path, staleMs, .creating⟩) }
    else w
  | .create id token nowMs stat outcome => w.onAttempt id fun a =>
    if a.phase = .creating ∧ token ≠ "" ∧ token ∉ w.issued then
      w.createLockFile id a token nowMs stat outcome
    else w
  | .stat id => w.onAttempt id fun a =>
    if a.phase = .contended then
      -- without a file the inspection fails, and the waiter tries again
      match w.files a.path with
      | some file => w.setPhase id a (.inspected file.stat)
      | none => w.setPhase id a .creating
    else w
  | .read id torn => w.onAttempt id fun a =>
    match a.phase with
    | .inspected stat =>
      w.setPhase id a (.parsed stat (if torn then none else (w.files a.path).bind (·.content)))
    | _ => w
  | .probe id unclear => w.onAttempt id fun a =>
    match a.phase with
    | .parsed stat metadata =>
      w.setPhase id a (.probed stat metadata
        ((metadata.bind (·.pid)).bind fun pid => w.isProcessAlive pid unclear))
    | _ => w
  | .decide id nowMs => w.onAttempt id fun a =>
    match a.phase with
    | .probed stat metadata ownerState =>
      w.decideReclaim id a (w.lockDecision a stat metadata ownerState nowMs)
    | _ => w
  | .remove id outcome => w.onAttempt id fun a =>
    match a.phase with
    | .reclaiming (token, stat) =>
      let removed := removeLockIfOwner (w.files a.path) token token.isNone (some stat) outcome
      (w.setFile a.path removed.1).setPhase id a .creating
    | _ => w
  | .giveUp id => w.onAttempt id fun a =>
    if a.phase = .creating then w.setPhase id a .failed else w
  | .release h => w.onHandle h fun handle => w.release h handle
  | .releaseRemove h outcome => w.onHandle h fun handle => w.releaseRemove h handle outcome
  | .releaseMark h nowMs stat outcome =>
    w.onHandle h fun handle => w.releaseMark h handle nowMs stat outcome

end PosseClient
