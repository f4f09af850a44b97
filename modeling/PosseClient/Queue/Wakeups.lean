/-
# Wakes and the transactions that defer them

`wakeups.js` with `runImmediateTransaction`: a notification bumps the generation in the database and
tells the listeners of the process, at once outside a transaction, and otherwise when the managed
transaction has committed (`flushPendingWakeEmissions`).

* One connection.  A transaction opens with `BEGIN IMMEDIATE` in `runImmediateTransaction`, which
  runs its callback only where one is open already, or in a `db.transaction`, which is a savepoint
  there.  `finish ok` is the end of the innermost of them: its callback returns or throws.
* A listener is called by `deliver`; what it does is the steps up to `listenerReturns`.  An error of
  a listener ends no emission.
* `opened`, `committed` and `received` are read by no function of the code.
-/
import Mathlib

namespace PosseClient

/-! ## 1. State -/

/-- The arguments of `notifyQueueStateChanged`. -/
structure WakeArgs where
  reason : String := "queue_state_changed"
  jobId : Option ℤ := none
  workItemId : Option ℤ := none
  path : Option String := none
  lockKind : Option String := none
deriving DecidableEq, Repr

/-- What a listener is called with. -/
structure WakePayload where
  generation : ℕ
  reason : String
  jobId : Option ℕ := none
  workItemId : Option ℕ := none
  path : Option String := none
  lockKind : Option String := none
  updatedAt : ℤ
deriving DecidableEq, Repr

/-- An open transaction: the generation it would go back to, and how many of the bumps that are
open precede it.  `plain` is a `runImmediateTransaction` inside another transaction. -/
inductive TxFrame
  | immediate (base : ℕ)
  | transaction (base mark : ℕ)
  | plain
deriving DecidableEq, Repr

/-- A list of payloads on its way: those after the current one, the current one, and the listeners
it has still to reach.  `running` is set while a listener has it. -/
structure WakeEmission where
  current : WakePayload
  later : List WakePayload
  waiting : List ℕ
  running : Bool := false
deriving DecidableEq, Repr

structure WakeState where
  generation : ℕ := 0
  pendingEmits : List WakePayload := []
  txs : List TxFrame := []
  emissions : List WakeEmission := []
  opened : List WakePayload := []
  committed : List WakePayload := []
  received : ℕ → List WakePayload := fun _ => []

/-- `db.inTransaction`. -/
def WakeState.inTransaction (s : WakeState) : Bool := !s.txs.isEmpty

/-- No emission is between two of its listeners: some code runs. -/
def WakeState.codeRuns (s : WakeState) : Bool :=
  match s.emissions with
  | [] => true
  | e :: _ => e.running

/-! ## 2. Emissions -/

/-- `emitWake` for each payload in turn, from its first listener on. -/
def WakeState.emit (s : WakeState) (listeners : List ℕ) (payloads : List WakePayload) :
    WakeState :=
  match payloads with
  | [] => s
  | payload :: later => { s with emissions := ⟨payload, later, listeners, false⟩ :: s.emissions }

/-- `flushPendingWakeEmissions`. -/
def WakeState.flushPendingWakeEmissions (s : WakeState) (listeners : List ℕ) : WakeState :=
  { s with pendingEmits := [] }.emit listeners s.pendingEmits

/-- `discardPendingWakeEmissions`. -/
def WakeState.discardPendingWakeEmissions (s : WakeState) : WakeState :=
  { s with pendingEmits := [] }

/-- The next call of a listener, or the next payload, or the end of the emission. -/
def WakeState.deliver (s : WakeState) (listeners : List ℕ) : WakeState :=
  match s.emissions with
  | [] => s
  | e :: rest =>
    if e.running then s else
    match e.waiting with
    | l :: waiting =>
      { s with
        emissions := { e with waiting := waiting, running := true } :: rest
        received := Function.update s.received l (s.received l ++ [e.current]) }
    | [] =>
      match e.later with
      | payload :: later => { s with emissions := ⟨payload, later, listeners, false⟩ :: rest }
      | [] => { s with emissions := rest }

/-! ## 3. Notifications and transactions -/

/-- `normalizeId`. -/
def normalizeId (value : Option ℤ) : Option ℕ :=
  value.bind fun n => if 0 < n then some n.toNat else none

/-- The row of `scheduler_wakeups` after a bump, with the two arguments it has no column for. -/
def WakeArgs.payload (args : WakeArgs) (generation : ℕ) (ts : ℤ) : WakePayload where
  generation := generation
  reason := if args.reason = "" then "queue_state_changed" else args.reason
  jobId := normalizeId args.jobId
  workItemId := normalizeId args.workItemId
  path := args.path
  lockKind := args.lockKind
  updatedAt := ts

/-- `notifyQueueStateChanged`. -/
def WakeState.notifyQueueStateChanged (s : WakeState) (listeners : List ℕ) (args : WakeArgs)
    (ts : ℤ) : WakeState :=
  let payload := args.payload (s.generation + 1) ts
  if s.inTransaction then
    { s with
      generation := s.generation + 1
      pendingEmits := s.pendingEmits ++ [payload]
      opened := s.opened ++ [payload] }
  else
    { s with
      generation := s.generation + 1
      committed := s.committed ++ [payload] }.emit listeners [payload]

/-- The bumps of the outermost transaction are committed. -/
def WakeState.commit (s : WakeState) : WakeState :=
  { s with txs := [], committed := s.committed ++ s.opened, opened := [] }

/-- The database goes back to the start of the innermost transaction. -/
def WakeState.rollback (s : WakeState) (rest : List TxFrame) (base mark : ℕ) : WakeState :=
  { s with txs := rest, generation := base, opened := s.opened.take mark }

/-- The end of the innermost transaction.  The hooks of `runImmediateTransaction` run after its own
`COMMIT` or `ROLLBACK`; a `db.transaction` has none. -/
def WakeState.finish (s : WakeState) (listeners : List ℕ) (ok : Bool) : WakeState :=
  match s.txs with
  | [] => s
  | .plain :: rest => { s with txs := rest }
  | .immediate base :: rest =>
    if ok then s.commit.flushPendingWakeEmissions listeners
    else (s.rollback rest base 0).discardPendingWakeEmissions
  | .transaction base mark :: rest =>
    if !ok then s.rollback rest base mark
    else if rest.isEmpty then s.commit
    else { s with txs := rest }

inductive WakeOp
  | notify (args : WakeArgs) (ts : ℤ)
  | runImmediateTransaction
  | dbTransaction
  | finish (ok : Bool)
  | deliver
  | listenerReturns
deriving DecidableEq, Repr

/-- One step of the process, whose listeners are given. -/
def wakeStep (listeners : List ℕ) (s : WakeState) : WakeOp → WakeState
  | .notify args ts =>
    if s.codeRuns then s.notifyQueueStateChanged listeners args ts else s
  | .runImmediateTransaction =>
    if !s.codeRuns then s
    else if s.inTransaction then { s with txs := .plain :: s.txs }
    else { s with txs := [.immediate s.generation] }
  | .dbTransaction =>
    if s.codeRuns then { s with txs := .transaction s.generation s.opened.length :: s.txs } else s
  | .finish ok => s.finish listeners ok
  | .deliver => s.deliver listeners
  | .listenerReturns =>
    match s.emissions with
    | [] => s
    | e :: rest =>
      -- a listener returns when the transactions it has opened are over
      if e.running ∧ s.txs = [] then { s with emissions := { e with running := false } :: rest }
      else s

end PosseClient
