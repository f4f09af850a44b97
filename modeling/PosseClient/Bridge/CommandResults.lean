/-
# Results of bridge commands

`CommandResultStore.js`: the table `bridge_command_results`, with its `claim` and its `complete`.

* `claim` is two statements, `complete` two: a statement is one step, and a call may stay between two
  for ever, which is a crash of its process.
* `claimant` and `completion` are read by no step: the call whose statement has inserted the row of an
  id, and the ack whose statement has completed it.
-/
import PosseClient.Lib.Json
import PosseClient.Lib.JsText
import PosseClient.Lib.Table

namespace PosseClient

open Json

/-! ## 1. The canonical text of arguments -/

/-- `Object.keys(value).sort()`, with the values. -/
def sortByKey {α : Type*} (members : List (Utf16 × α)) : List (Utf16 × α) :=
  members.mergeSort fun m m' => decide (m.1 ≤ m'.1)

mutual

/-- `stableValue`. -/
def stableValue : Value → Value
  | .array items => .array (stableItems items)
  | .object members => .object (fromEntries (sortByKey (stableMembers members)))
  | v => v

def stableItems : List Value → List Value
  | [] => []
  | v :: rest => stableValue v :: stableItems rest

def stableMembers : List (Utf16 × Value) → List (Utf16 × Value)
  | [] => []
  | (k, v) :: rest => (k, stableValue v) :: stableMembers rest

end

/-- `value ?? {}`. -/
def orEmpty : Value → Value
  | .null => .object []
  | v => v

/-- `stableJson`. -/
def stableJson (v : Value) : Utf16 := stringify (stableValue (orEmpty v))

/-- A value of the language. -/
structure JsonValue where
  value : Value
  wellFormed : WellFormed value

/-! ## 2. The table -/

/-- A row of `bridge_command_results`. -/
structure CommandRow where
  commandId : String
  commandName : String
  argsJson : Utf16
  completed : Bool := false
  ackJson : Option Utf16 := none
  completedAt : Option ℤ := none

/-- What a call gives back. -/
inductive CommandAnswer
  | claimed
  | conflict
  | pending
  | completed (ack : Value)
  | ack (ack : Value)
  | threw (message : String)

inductive CommandRequest
  | claim (id name : String) (args : JsonValue)
  | complete (id : String) (ack : JsonValue)

/-- How far a call is: nothing done; the first statement done, which has changed a row or not; the
answer there. -/
inductive CommandPhase
  | started
  | wrote (changed : Bool)
  | answered (answer : CommandAnswer)

structure CommandCall where
  request : CommandRequest
  phase : CommandPhase := .started

structure CommandWorld where
  rows : List CommandRow := []
  calls : ℕ → Option CommandCall := fun _ => none
  claimant : String → Option ℕ := fun _ => none
  completion : String → Option JsonValue := fun _ => none

/-- `readRow`. -/
def CommandWorld.readRow (w : CommandWorld) (id : String) : Option CommandRow :=
  Table.lookup (·.commandId) id w.rows

/-- 30 days, in milliseconds. -/
def commandRetentionMs : ℤ := 30 * 24 * 60 * 60 * 1000

/-- The call goes on. -/
def CommandWorld.setPhase (w : CommandWorld) (c : ℕ) (call : CommandCall) (phase : CommandPhase) :
    CommandWorld :=
  { w with calls := Function.update w.calls c (some { call with phase := phase }) }

/-- The `INSERT` of `claim`. -/
def CommandWorld.insertClaim (w : CommandWorld) (c : ℕ) (call : CommandCall) (id name : String)
    (args : JsonValue) : CommandWorld :=
  if (w.readRow id).isSome then w.setPhase c call (.wrote false)
  else
    { w.setPhase c call (.wrote true) with
      rows := w.rows ++ [⟨id, name, stableJson args.value, false, none, none⟩]
      claimant := Function.update w.claimant id (some c) }

/-- `ack && typeof ack === "object"`. -/
def isAckObject : Value → Bool
  | .array _ => true
  | .object _ => true
  | _ => false

/-- The end of `claim`, from the row it reads. -/
def claimAnswer (row : Option CommandRow) (inserted : Bool) (name : String) (args : JsonValue) :
    CommandAnswer :=
  match row with
  | none => .threw "durable command claim disappeared"
  | some row =>
    if row.commandName ≠ name ∨ row.argsJson ≠ stableJson args.value then .conflict
    else if inserted then .claimed
    else if row.completed then
      match row.ackJson.bind (parse fromEntries) with
      | some ack => if isAckObject ack then .completed ack
        else .threw "durable command result is corrupt"
      | none => .threw "durable command result is corrupt"
    else .pending

/-- The `UPDATE` of `complete`. -/
def CommandWorld.updateComplete (w : CommandWorld) (c : ℕ) (call : CommandCall) (id : String)
    (ack : JsonValue) (nowMs : ℤ) : CommandWorld :=
  let isPending := fun row : CommandRow => decide (row.commandId = id) && !row.completed
  if 0 < Table.changes isPending w.rows then
    { w.setPhase c call (.wrote true) with
      rows := Table.updateWhere isPending (fun row =>
        { row with
          completed := true, ackJson := some (stringify ack.value), completedAt := some nowMs }) w.rows
      completion := Function.update w.completion id (some ack) }
  else w.setPhase c call (.wrote false)

/-- A row whose completion is out of the retention window. -/
def CommandRow.expired (row : CommandRow) (nowMs : ℤ) : Bool :=
  row.completed && row.completedAt.any (fun at_ => decide (at_ < nowMs - commandRetentionMs))

/-- The `DELETE` of `complete`. -/
def CommandWorld.deleteExpired (w : CommandWorld) (nowMs : ℤ) : CommandWorld :=
  { w with rows := Table.deleteWhere (·.expired nowMs) w.rows }

/-- The end of `complete` where its update has changed nothing. -/
def completeAnswer (row : Option CommandRow) (ack : JsonValue) : CommandAnswer :=
  if row.any (fun row => row.completed && decide (row.ackJson = some (stringify ack.value))) then
    .ack ack.value
  else .threw "durable command completion lost its pending claim"

/-- What happens next: a call begins, or does its next statement. -/
inductive CommandOp
  | claim (c : ℕ) (commandId commandName : String) (args : JsonValue)
  | complete (c : ℕ) (commandId : String) (ack : JsonValue)
  | step (c : ℕ) (nowMs : ℤ)

/-- A call begins, if there is none of its number. -/
def CommandWorld.begin (w : CommandWorld) (c : ℕ) (request : CommandRequest) : CommandWorld :=
  if (w.calls c).isSome then w
  else { w with calls := Function.update w.calls c (some { request := request }) }

/-- The next statement of a call. -/
def CommandWorld.stepCall (w : CommandWorld) (c : ℕ) (call : CommandCall) (nowMs : ℤ) :
    CommandWorld :=
  match call.request, call.phase with
  | .claim id name args, .started => w.insertClaim c call id name args
  | .claim id name args, .wrote inserted =>
    w.setPhase c call (.answered (claimAnswer (w.readRow id) inserted name args))
  | .complete id ack, .started => w.updateComplete c call id ack nowMs
  | .complete _ ack, .wrote true =>
    (w.deleteExpired nowMs).setPhase c call (.answered (.ack ack.value))
  | .complete id ack, .wrote false =>
    w.setPhase c call (.answered (completeAnswer (w.readRow id) ack))
  | _, .answered _ => w

def commandStep (w : CommandWorld) : CommandOp → CommandWorld
  | .claim c commandId commandName args =>
    w.begin c (.claim (trim commandId) (trim commandName) args)
  | .complete c commandId ack => w.begin c (.complete (trim commandId) ack)
  | .step c nowMs =>
    match w.calls c with
    | some call => w.stepCall c call nowMs
    | none => w

end PosseClient
