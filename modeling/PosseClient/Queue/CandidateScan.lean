/-
# The scan of runnable candidates

`RunnableCandidateScan.js`: the scheduler reads the runnable jobs in bounded batches.  The first
read of a pass is the ranked head of the queue; the others continue the tail walk of the passes
before, behind a cursor that is built from the last row of the batch.

* `findRunnableJobsBatch`: the read in keyset order, ordered by the expressions of the query.
* `cursor`: the same four values, computed from the row that was read.
* `CandidateScan.next`: one call of the scan.

`JSON.parse`, `json_valid` and `json_extract` are arguments (`PayloadReaders`).  The conditions of
the query that look at other tables and at the time are one flag of a row, `ready`; the rows of a
ranked head read are an argument of the call.
-/
import PosseClient.Queue.UnlockRanking
import PosseClient.Lib.JsonObjects
import PosseClient.Lib.KeysetPages

namespace PosseClient

open Json KeysetPages

variable {T : Type*} [LinearOrder T]

/-! ## 1. Rows and payloads -/

/-- What `json_extract` gives: an array and an object are their texts. -/
inductive SqlValue
  | null
  | number (n : ℚ)
  | text (s : Utf16)
  deriving DecidableEq

/-- The readers of a payload text. -/
structure PayloadReaders where
  /-- `JSON.parse`; `none` where it throws. -/
  jsonParse : Utf16 → Option Value
  /-- `json_valid(payload_json)`. -/
  jsonValid : Utf16 → Bool
  /-- `json_extract(payload_json, '$._assess_only')`. -/
  extractAssessOnly : Utf16 → SqlValue

/-- A row of `jobs`, as far as the scan reads it. -/
structure ScanJob (T : Type*) where
  id : ℕ
  workItemId : Option ℕ := none
  jobType : JobType
  priority : JobPriority := .normal
  createdAt : T
  payloadJson : Option Utf16 := none
  ready : Bool := true
  deriving DecidableEq

/-- `CASE j.priority WHEN 'urgent' …`, which is also the table of `cursor`. -/
def priorityPlace : JobPriority → ℕ
  | .urgent => 0
  | .high => 1
  | .normal => 2
  | .low => 3

/-- The kind of a job that is no assessment. -/
def kindOfType (jobType : JobType) : ℕ :=
  if jobType = .fix then 1 else if jobType = .promote then 2 else 3

/-- The name `_assess_only`. -/
def assessOnlyKey : Utf16 := [95, 97, 115, 115, 101, 115, 115, 95, 111, 110, 108, 121]

/-- `IN (1, '1', true)`. -/
def isSqlAssessOnly : SqlValue → Bool
  | .number n => n = 1
  | .text s => s = [49]
  | .null => false

/-- `parseJobPayload`. -/
def parseJobPayload (readers : PayloadReaders) (payloadJson : Option Utf16) : Members :=
  match payloadJson with
  | none | some [] => []
  | some text =>
    match readers.jsonParse text with
    | some (.object members) => members
    | _ => []

/-- The `kind` of the query. -/
def sqlKind (readers : PayloadReaders) (job : ScanJob T) : ℕ :=
  if job.payloadJson.any fun text =>
      readers.jsonValid text && isSqlAssessOnly (readers.extractAssessOnly text)
  then 0 else kindOfType job.jobType

/-- The `kind` of `cursor`. -/
def cursorKind (readers : PayloadReaders) (job : ScanJob T) : ℕ :=
  if isAssessOnly (findMember assessOnlyKey (parseJobPayload readers job.payloadJson)) then 0
  else kindOfType job.jobType

/-! ## 2. Positions -/

/-- A position of the walk. -/
structure ScanCursor (T : Type*) where
  priority : ℕ
  kind : ℕ
  createdAt : T
  id : ℕ
  deriving DecidableEq

/-- The order of rows values. -/
def ScanCursor.key (position : ScanCursor T) : ℕ ×ₗ ℕ ×ₗ T ×ₗ ℕ :=
  toLex (position.priority, toLex (position.kind, toLex (position.createdAt, position.id)))

/-- `cursor`. -/
def cursor (readers : PayloadReaders) (job : ScanJob T) : ScanCursor T :=
  { priority := priorityPlace job.priority, kind := cursorKind readers job,
    createdAt := job.createdAt, id := job.id }

/-- The ordering tuple of the query. -/
def sqlPosition (readers : PayloadReaders) (job : ScanJob T) : ScanCursor T :=
  { priority := priorityPlace job.priority, kind := sqlKind readers job,
    createdAt := job.createdAt, id := job.id }

/-- `ORDER BY`. -/
def scanInOrder (readers : PayloadReaders) (a b : ScanJob T) : Bool :=
  (sqlPosition readers a).key ≤ (sqlPosition readers b).key

/-! ## 3. The read -/

/-- The options of a read. -/
structure ScanOptions where
  excludeWorkItemIds : List ℕ := []
  excludeJobIds : List ℕ := []
  onlyJobTypes : List JobType := []
  onlyWorkItemIds : List ℕ := []
  deriving DecidableEq

/-- The `WHERE` clause without the cursor.  A job without a work item is in no list and outside no
list of them. -/
def ScanOptions.selects (options : ScanOptions) (job : ScanJob T) : Bool :=
  job.ready &&
    (options.excludeWorkItemIds.isEmpty ||
      job.workItemId.any fun id => !options.excludeWorkItemIds.contains id) &&
    (options.onlyWorkItemIds.isEmpty ||
      job.workItemId.any fun id => options.onlyWorkItemIds.contains id) &&
    !options.excludeJobIds.contains job.id &&
    (options.onlyJobTypes.isEmpty || options.onlyJobTypes.contains job.jobType)

/-- `safeLimit`. -/
def safeLimit (limit : ℚ) : ℕ := (max 1 ⌊limit⌋).toNat

/-- The row lies behind the cursor, if there is one. -/
def isBehind (readers : PayloadReaders) (after : Option (ScanCursor T)) (job : ScanJob T) : Bool :=
  after.all fun position => position.key < (sqlPosition readers job).key

/-- `findRunnableJobsBatch`, with `rankByUnlock: false`. -/
def findRunnableJobsBatch (readers : PayloadReaders) (limit : ℚ) (options : ScanOptions)
    (after : Option (ScanCursor T)) (jobs : List (ScanJob T)) : List (ScanJob T) :=
  pageOf (scanInOrder readers) (fun job => options.selects job && isBehind readers after job)
    (safeLimit limit) jobs

/-! ## 4. The scan -/

/-- `JSON.stringify([options.onlyJobTypes || [], options.onlyWorkItemIds || []])`. -/
abbrev ScanKey := List JobType × List ℕ

def ScanOptions.key (options : ScanOptions) : ScanKey :=
  (options.onlyJobTypes, options.onlyWorkItemIds)

/-- `RunnableCandidateScan`. -/
structure CandidateScan (T : Type*) where
  positions : List (ScanKey × ScanCursor T) := []
  heads : List ScanKey := []

/-- `this.positions.get(key)`. -/
def CandidateScan.position (scan : CandidateScan T) (key : ScanKey) : Option (ScanCursor T) :=
  (Table.lookup Prod.fst key scan.positions).map Prod.snd

/-- `beginPass`. -/
def CandidateScan.beginPass (scan : CandidateScan T) : CandidateScan T := { scan with heads := [] }

/-- The second half of a tail call: the position goes, or moves to the last row.  What is returned
is `none` where the call throws, because there is no last row. -/
def CandidateScan.settle (readers : PayloadReaders) (scan : CandidateScan T) (key : ScanKey)
    (limit : ℚ) (rows : List (ScanJob T)) : CandidateScan T × Option (List (ScanJob T)) :=
  if (rows.length : ℚ) < limit then
    ({ scan with positions := KeyedMap.remove Prod.fst key scan.positions }, some rows)
  else
    match rows.getLast? with
    | none => (scan, none)
    | some last =>
      ({ scan with
        positions := KeyedMap.put Prod.fst (key, cursor readers last) scan.positions }, some rows)

/-- `next`, and what it returns. -/
def CandidateScan.next (readers : PayloadReaders) (jobs : List (ScanJob T)) (scan : CandidateScan T)
    (limit : ℚ) (options : ScanOptions) (headRows : List (ScanJob T)) :
    CandidateScan T × Option (List (ScanJob T)) :=
  let key := options.key
  if scan.heads.contains key = false then
    ({ scan with heads := scan.heads ++ [key] }, some headRows)
  else
    scan.settle readers key limit
      (findRunnableJobsBatch readers limit options (scan.position key) jobs)

/-! ## 5. Runs -/

/-- What happens: the table changes, a pass begins, or the scheduler calls the scan. -/
inductive ScanOp (T : Type*)
  | commit (jobs : List (ScanJob T))
  | beginPass
  | next (limit : ℚ) (options : ScanOptions) (headRows : List (ScanJob T))

/-- A call that was no head: the rows it could select, wherever its position was, and the rows it
returned. -/
structure TailRead (T : Type*) where
  selected : List (ScanJob T)
  limit : ℚ
  rows : List (ScanJob T)

/-- The table and the scan, with the tail calls under one key: those since the last reset of its
position, and the cycles between two resets before. -/
structure ScanBook (T : Type*) where
  jobs : List (ScanJob T) := []
  scan : CandidateScan T := {}
  current : List (TailRead T) := []
  completed : List (List (TailRead T)) := []

/-- The books after a tail call. -/
def ScanBook.record (book : ScanBook T) (key : ScanKey) (scan : CandidateScan T)
    (read : TailRead T) : ScanBook T :=
  if (scan.position key).isNone then
    { book with scan, current := [], completed := book.completed ++ [book.current ++ [read]] }
  else { book with scan, current := book.current ++ [read] }

/-- One step, with the books of the tail of `key`. -/
def scanStep (readers : PayloadReaders) (key : ScanKey) (book : ScanBook T) :
    ScanOp T → ScanBook T
  | .commit jobs => { book with jobs }
  | .beginPass => { book with scan := book.scan.beginPass }
  | .next limit options headRows =>
    let out := book.scan.next readers book.jobs limit options headRows
    if options.key = key ∧ book.scan.heads.contains key = true then
      book.record key out.1
        { selected := book.jobs.filter options.selects, limit, rows := out.2.getD [] }
    else { book with scan := out.1 }

/-- The rows that a cycle has returned, in order. -/
def cycleRows (reads : List (TailRead T)) : List (ScanJob T) := reads.flatMap TailRead.rows

end PosseClient
