/-
# Eviction of materialized hash refs

The budget of one owner of hash refs in `HashRefStore.js`: what may be evicted, the loop that evicts
until the rest fits, and the marker of a store whose pinned rows take too much.

* `isEvictable`, `evictionKey`: which rows may go, and in what order.
* `evictMaterializedRow`: a row loses its payload and stays as a descriptor.
* `enforceMaterializedBudget`: the loop, and the marker.
-/
import PosseClient.HashRefs.Capabilities
import PosseClient.Lib.CodePoints
import PosseClient.Lib.JsonObjects
import PosseClient.Lib.LineEnds
import PosseClient.Lib.Shedding
import PosseClient.Store.Schema

namespace PosseClient

open CodePoints Json Shedding Table

/-! ## 1. Rows -/

/-- `HASH_REF_ENTRY_KINDS`. -/
inductive HashRefEntryKind
  | materialized | descriptor
  deriving DecidableEq, Repr

/-- A row of an owner's hash refs; a JSON column is the value of its text, and the metadata are the
members of theirs. -/
structure HashRefRow where
  id : ℕ
  ownerId : ℕ
  ref : String
  objectType : Utf16
  source : Option Utf16
  entryKind : HashRefEntryKind
  payloadText : Option Utf16
  descriptor : Option Value
  fingerprint : Option Value
  recomputable : Bool
  degraded : Bool
  metadata : Members
  updatedAt : String

/-- A row of the alias table of the owner. -/
structure OwnerAliasRow where
  ownerId : ℕ
  ref : String
  targetRef : String
  deriving DecidableEq, Repr

/-- What the store reads; the ids are the primary key of the rows. -/
structure HashRefDb where
  rows : List HashRefRow
  aliases : List OwnerAliasRow
  evidence : List CapabilityRow
  calls : List AgentCall
  ids : (rows.map (·.id)).Nodup

/-- A store of one owner. A budget is a number of the language, and may be infinite. -/
structure HashRefStore where
  ownerId : ℕ
  maxMaterializedRows : WithTop ℚ
  maxMaterializedChars : WithTop ℚ

/-- `UPDATE .. SET .. WHERE id = ?`. -/
def HashRefDb.updateRow (db : HashRefDb) (id : ℕ) (f : HashRefRow → HashRefRow)
    (hf : ∀ row, (f row).id = row.id) : HashRefDb :=
  { db with
    rows := updateWhere (fun row => decide (row.id = id)) f db.rows
    ids := by
      rw [map_key_updateWhere fun row _ => hf row]
      exact db.ids }

/-! ## 2. Values in columns -/

/-- `json_extract` of one member. -/
def jsonExtract (metadata : Members) (key : String) : Option Value :=
  findMember (units key) metadata

/-- `json_set` of one member. -/
def jsonSet (metadata : Members) (key : String) (value : Value) : Members :=
  putMember (units key) value metadata

/-- `COALESCE(value, 0) = 1`, which holds of `true` as well. -/
def isOne : Option Value → Bool
  | some (.bool b) => b
  | some (.number n) => decide (n.text = [49])
  | _ => false

/-- `length(COALESCE(payload_text, ''))`: the characters before the first NUL. -/
def sqlLength (payloadText : Option Utf16) : ℕ :=
  (codePoints ((payloadText.getD []).takeWhile fun u => decide (u ≠ 0))).length

/-- `lineFingerprintMap`: the hashes of every 80 lines. -/
def lineFingerprintMap (sha256Hex : Utf16 → Utf16) (text : Utf16) : Value :=
  let lines := (crlfToLf text).splitOn 10
  .object
    [(units "line_count", ofNat lines.length), (units "char_count", ofNat text.length),
      (units "chunks", .object ((List.range ((lines.length + 79) / 80)).map fun k =>
        (units "lines:" ++ natText (80 * k + 1) ++ units "-" ++
            natText (min lines.length (80 * k + 80)),
          .string (sha256Hex ([10].intercalate ((lines.drop (80 * k)).take 80))))))]

/-! ## 3. What may be evicted -/

/-- `_liveEvidenceSql`: a running call was issued evidence of the row, under its ref or an alias. -/
def HashRefDb.liveEvidence (db : HashRefDb) (row : HashRefRow) : Bool :=
  db.evidence.any fun evidence => db.calls.any fun call =>
    decide (evidence.agentCallId = some (call.id : ℤ)) && decide (call.status = .running) &&
      (decide (evidence.sourceRef = row.ref) || db.aliases.any fun other =>
        decide (other.ref = evidence.sourceRef) && decide (other.targetRef = row.ref) &&
          decide (other.ownerId = row.ownerId))

/-- Pinned by bounded ingress or by a handoff. -/
def HashRefRow.isPinned (row : HashRefRow) : Bool :=
  isOne (jsonExtract row.metadata "bounded_ingress") ||
    isOne (jsonExtract row.metadata "handoff_evidence_pinned")

/-- A materialized row of the owner. -/
def HashRefStore.owns (store : HashRefStore) (row : HashRefRow) : Bool :=
  decide (row.ownerId = store.ownerId) && decide (row.entryKind = .materialized)

def HashRefStore.isEvictable (store : HashRefStore) (db : HashRefDb) (row : HashRefRow) : Bool :=
  store.owns row && !row.isPinned && !db.liveEvidence row

def HashRefStore.evictable (store : HashRefStore) (db : HashRefDb) : List HashRefRow :=
  select (store.isEvictable db) db.rows

/-- `ORDER BY updated_at ASC, CASE WHEN ref = ? THEN 1 ELSE 0 END ASC, id ASC`. -/
def evictionKey (preserveRef : String) (row : HashRefRow) : Lex (String × Lex (ℕ × ℕ)) :=
  toLex (row.updatedAt, toLex (if row.ref = preserveRef then 1 else 0, row.id))

/-- The `chars` of the statistics. -/
def charsOf (rows : List HashRefRow) : ℕ := (rows.map fun row => sqlLength row.payloadText).sum

/-- A count, as a number of the language. -/
def jsNumber (n : ℕ) : WithTop ℚ := ((n : ℚ) : WithTop ℚ)

/-- The loop ends at rows that are within both budgets; no positive character budget is none. -/
def HashRefStore.fits (store : HashRefStore) (rows : List HashRefRow) : Bool :=
  decide (jsNumber rows.length ≤ store.maxMaterializedRows) &&
    (decide (store.maxMaterializedChars ≤ 0) ||
      decide (jsNumber (charsOf rows) ≤ store.maxMaterializedChars))

/-! ## 4. Eviction -/

/-- What the clock says at the two readings of one eviction. -/
structure EvictionTimes where
  evictedAt : String
  updatedAt : String

/-- The descriptor of a row that has none. -/
def evictedDescriptor (row : HashRefRow) (evictedAt : String) : Value :=
  .object
    [(units "kind", .string (units "evicted_materialized_hash_ref")),
      (units "ref", .string (units row.ref)), (units "object_type", .string row.objectType),
      (units "source", ((row.source.filter (· ≠ [])).map Value.string).getD .null),
      (units "evicted_at", .string (units evictedAt))]

/-- The columns `_evictMaterializedRow` writes. -/
def HashRefRow.evicted (row : HashRefRow) (sha256Hex : Utf16 → Utf16) (times : EvictionTimes) :
    HashRefRow :=
  { row with
    entryKind := .descriptor
    payloadText := none
    descriptor :=
      some ((truthy row.descriptor).getD (evictedDescriptor row times.evictedAt))
    fingerprint :=
      some ((truthy row.fingerprint).getD
        (lineFingerprintMap sha256Hex (row.payloadText.getD [])))
    recomputable := (truthy row.descriptor).isSome && row.recomputable
    degraded := true
    updatedAt := times.updatedAt }

/-- `_evictMaterializedRow`. -/
def HashRefDb.evictMaterializedRow (db : HashRefDb) (sha256Hex : Utf16 → Utf16)
    (times : EvictionTimes) (row : HashRefRow) : HashRefDb :=
  db.updateRow row.id (fun row => row.evicted sha256Hex times) fun _ => rfl

/-- The row the loop reads. -/
def HashRefStore.victim (store : HashRefStore) (preserveRef : String) (db : HashRefDb) :
    Option HashRefRow :=
  first (fun r s => decide (evictionKey preserveRef r < evictionKey preserveRef s))
    (store.evictable db)

/-- **An eviction takes the row out of those that may be evicted**, and no other. -/
theorem evictable_evict (store : HashRefStore) (db : HashRefDb) (sha256Hex : Utf16 → Utf16)
    (times : EvictionTimes) (victim : HashRefRow) :
    store.evictable (db.evictMaterializedRow sha256Hex times victim) =
      (store.evictable db).filter fun row => decide (row.id ≠ victim.id) := by
  have hnone : ∀ row ∈ db.rows, decide (row.id = victim.id) = true →
      store.isEvictable db (row.evicted sha256Hex times) = false := by
    intro row _ _
    simp [HashRefStore.isEvictable, HashRefStore.owns, HashRefRow.evicted]
  refine (select_updateWhere hnone).trans (List.filter_congr ?_)
  intro row _
  simp

/-- The measure of the loop. -/
theorem length_evictable_evict {store : HashRefStore} {preserveRef : String} {db : HashRefDb}
    {victim : HashRefRow} (h : store.victim preserveRef db = some victim)
    (sha256Hex : Utf16 → Utf16) (times : EvictionTimes) :
    (store.evictable (db.evictMaterializedRow sha256Hex times victim)).length <
      (store.evictable db).length := by
  rw [evictable_evict]
  exact List.length_filter_lt_length_iff_exists.mpr ⟨victim, first_mem h, by simp⟩

/-- The `while (true)` of `_enforceMaterializedBudget`; `tick` counts the evictions. -/
def HashRefStore.enforceLoop (store : HashRefStore) (preserveRef : String)
    (sha256Hex : Utf16 → Utf16) (clock : ℕ → EvictionTimes) (tick : ℕ) (db : HashRefDb) :
    HashRefDb :=
  if store.fits (store.evictable db) then db
  else
    match _h : store.victim preserveRef db with
    | none => db
    | some row =>
      store.enforceLoop preserveRef sha256Hex clock (tick + 1)
        (db.evictMaterializedRow sha256Hex (clock tick) row)
termination_by (store.evictable db).length
decreasing_by exact length_evictable_evict _h sha256Hex (clock tick)

/-! ## 5. The marker -/

/-- A materialized row that the loop must leave. -/
def HashRefStore.isHeld (store : HashRefStore) (db : HashRefDb) (row : HashRefRow) : Bool :=
  store.owns row && (row.isPinned || db.liveEvidence row)

def HashRefRow.marked (row : HashRefRow) : HashRefRow :=
  { row with metadata := jsonSet row.metadata "pinned_pressure_reported" (ofNat 1) }

/-- `_reportPinnedPressure`, without the event: the latest held row is marked, once, when the held
rows take twice the character budget. -/
def HashRefStore.reportPinnedPressure (store : HashRefStore) (db : HashRefDb) : HashRefDb :=
  let held := select (store.isHeld db) db.rows
  if store.maxMaterializedChars ≤ 0 then db
  else if jsNumber (charsOf held) < store.maxMaterializedChars + store.maxMaterializedChars then db
  else if held.any fun row => isOne (jsonExtract row.metadata "pinned_pressure_reported") then db
  else
    match first (fun r s =>
      decide (toLex (s.updatedAt, s.id) < toLex (r.updatedAt, r.id))) held with
    | none => db
    | some row => db.updateRow row.id HashRefRow.marked fun _ => rfl

/-- `_enforceMaterializedBudget`; the ref it would rather keep is the empty text where there is
none. -/
def HashRefStore.enforceMaterializedBudget (store : HashRefStore) (preserveRef : String)
    (sha256Hex : Utf16 → Utf16) (clock : ℕ → EvictionTimes) (db : HashRefDb) : HashRefDb :=
  store.reportPinnedPressure (store.enforceLoop preserveRef sha256Hex clock 0 db)

end PosseClient
