/-
# Capabilities of hash refs

`HashRefCapabilityStore.js`: which refs an agent call may read on (`hash_ref_traversal_refs`) and
which it may cite (`hash_ref_evidence_refs`), each in a scope: the agent call, else the attempt, else
the job, else the work item.

* A selector is its `JSON.stringify` text, which parsing and writing again gives back.
* `sha256` is the digest function; a time stamp is a number.
* A function gives the database afterwards and its answer, an error where it throws.
-/
import PosseClient.HashRefs.Minter
import PosseClient.Lib.KeyedMap

namespace PosseClient

/-! ## 1. Scopes and rows -/

/-- The ids of a context; `normalizedIds` keeps the positive ones. -/
structure HashRefIds where
  workItemId : Option ℤ := none
  jobId : Option ℤ := none
  attemptId : Option ℤ := none
  agentCallId : Option ℤ := none
  deriving DecidableEq, Repr

/-- `normalizedIds`. -/
def normalizedIds (context : HashRefIds) : HashRefIds where
  workItemId := context.workItemId.filter (0 < ·)
  jobId := context.jobId.filter (0 < ·)
  attemptId := context.attemptId.filter (0 < ·)
  agentCallId := context.agentCallId.filter (0 < ·)

/-- `scopeKey`. -/
def scopeKey (ids : HashRefIds) : String :=
  match ids.agentCallId, ids.attemptId, ids.jobId, ids.workItemId with
  | some id, _, _, _ => s!"agent_call:{id}"
  | none, some id, _, _ => s!"attempt:{id}"
  | none, none, some id, _ => s!"job:{id}"
  | none, none, none, some id => s!"work_item:{id}"
  | none, none, none, none => ""

/-- A row of `hash_ref_traversal_refs` or `hash_ref_evidence_refs`. -/
structure CapabilityRow where
  ref : String
  scopeKey : String
  sourceRef : String
  selectorJson : Option String := none
  workItemId : Option ℤ := none
  jobId : Option ℤ := none
  attemptId : Option ℤ := none
  agentCallId : Option ℤ := none
  sourceContentHash : Option String := none
  viewSha256 : Option String := none
  viewChars : Option ℕ := none
  viewLines : Option ℕ := none
  createdAt : ℤ := 0
  updatedAt : ℤ := 0
  deriving DecidableEq, Repr

/-- The primary key. -/
def CapabilityRow.key (row : CapabilityRow) : String × String := (row.ref, row.scopeKey)

structure CapabilityDb where
  aliases : List HashAliasRow := []
  traversals : List CapabilityRow := []
  evidence : List CapabilityRow := []
  deriving DecidableEq, Repr

/-- `normalizedRef`. -/
def normalizedRef (value label : String) : Except String String :=
  let ref := normalizeHashRefAlias value
  let shown := if ref = "" then value else ref
  if matchesHashRefAlias ref then .ok ref else .error s!"Invalid {label}: {shown}"

/-- `deserialize`: an empty hash is none. -/
def deserializeCapability (row : CapabilityRow) : CapabilityRow :=
  { row with
    sourceContentHash := row.sourceContentHash.filter (· != "")
    viewSha256 := row.viewSha256.filter (· != "") }

/-! ## 2. Statements -/

/-- `_row`: the row of the scope, else the one of the attempt that was updated last. -/
def capabilityRow (rows : List CapabilityRow) (allowAttemptFallback : Bool) (ids : HashRefIds)
    (ref : String) : Option CapabilityRow :=
  let own := fun row : CapabilityRow => decide (row.scopeKey = scopeKey ids)
  Table.first (fun r s => if own r = own s then decide (s.updatedAt < r.updatedAt) else own r)
    (Table.select (fun row => decide (row.ref = normalizeHashRefAlias ref) && (own row ||
      allowAttemptFallback && ids.attemptId.isSome && decide (row.attemptId = ids.attemptId))) rows)

/-- `evidence`. -/
def CapabilityDb.evidenceOf (db : CapabilityDb) (ids : HashRefIds) (ref : String) :
    Option CapabilityRow :=
  (capabilityRow db.evidence false ids ref).map deserializeCapability

/-- `traversal`. -/
def CapabilityDb.traversalOf (db : CapabilityDb) (ids : HashRefIds) (ref : String) :
    Option CapabilityRow :=
  (capabilityRow db.traversals true ids ref).map deserializeCapability

/-- What `ON CONFLICT(ref, scope_key) DO UPDATE` makes of a row. -/
def CapabilityRow.overwrite (row new : CapabilityRow) : CapabilityRow :=
  { row with
    sourceRef := new.sourceRef
    selectorJson := new.selectorJson
    sourceContentHash := new.sourceContentHash.or row.sourceContentHash
    viewSha256 := new.viewSha256.or row.viewSha256
    viewChars := new.viewChars.or row.viewChars
    viewLines := new.viewLines.or row.viewLines
    updatedAt := new.updatedAt }

/-- The `INSERT` of `_insert`. -/
def insertCapability (rows : List CapabilityRow) (new : CapabilityRow) : List CapabilityRow :=
  if rows.any (fun row => decide (row.key = new.key)) then
    Table.updateWhere (fun row => decide (row.key = new.key)) (·.overwrite new) rows
  else rows ++ [new]

/-- The line ends of a text, of any kind. -/
def lineBreaks : List Char → ℕ
  | '\r' :: '\n' :: rest => lineBreaks rest + 1
  | '\r' :: rest => lineBreaks rest + 1
  | '\n' :: rest => lineBreaks rest + 1
  | _ :: rest => lineBreaks rest
  | [] => 0

/-- `replace(/\r\n?/g, "\n").split("\n").length`. -/
def viewLineCount (text : String) : ℕ := lineBreaks text.toList + 1

/-- What a caller says of a ref to issue or register. -/
structure CapabilityArgs where
  ref : Option String := none
  sourceRef : String := ""
  selector : Option String := none
  sourceContentHash : Option String := none
  viewText : Option String := none
  deriving DecidableEq, Repr

section Store

variable (sha256 : String → String)

/-- The row that `_insert` inserts. -/
def capabilityOf (ids : HashRefIds) (ref source : String) (args : CapabilityArgs) (now : ℤ) :
    CapabilityRow where
  ref := ref
  scopeKey := scopeKey ids
  sourceRef := source
  selectorJson := args.selector
  workItemId := ids.workItemId
  jobId := ids.jobId
  attemptId := ids.attemptId
  agentCallId := ids.agentCallId
  sourceContentHash := args.sourceContentHash
  viewSha256 := args.viewText.map sha256
  viewChars := args.viewText.map utf16Length
  viewLines := args.viewText.map viewLineCount
  createdAt := now
  updatedAt := now

/-! ## 3. Issuing, registering, promoting -/

/-- `ref == null ? "" : normalizedRef(ref, label)`. -/
def givenRef (ref : Option String) (label : String) : Except String String :=
  match ref with
  | some ref => normalizedRef ref label
  | none => .ok ""

/-- `publicRef` as it is, or a minted one where it is empty. -/
def publicRefOrMint (db : CapabilityDb) (publicRef : String)
    (randomInt : ℕ → ℕ → ℕ → Fin 36) : Except String (CapabilityDb × String) :=
  if publicRef = "" then
    (mint db.aliases randomInt).map fun minted => ({ db with aliases := minted.1 }, minted.2)
  else .ok (db, publicRef)

/-- Reserves the ref if it is free. -/
def reserveIfFree (db : CapabilityDb) (publicRef : String) : Except String CapabilityDb :=
  if refExists db.aliases publicRef then .ok db
  else (reserve db.aliases publicRef).map fun aliases => { db with aliases := aliases }

/-- An existing row is of another source or selector. -/
def differs (existing : Option CapabilityRow) (source : String) (selector : Option String) : Bool :=
  existing.any fun row => row.sourceRef != source || row.selectorJson != selector

/-- `issueTraversal`; `randomInt'` is what a second `mint` draws. -/
def CapabilityDb.issueTraversal (db : CapabilityDb) (ids : HashRefIds) (args : CapabilityArgs)
    (randomInt randomInt' : ℕ → ℕ → ℕ → Fin 36) (now : ℤ) :
    CapabilityDb × Except String (Option CapabilityRow) :=
  match normalizedRef args.sourceRef "traversal source ref" with
  | .error message => (db, .error message)
  | .ok source =>
    match givenRef args.ref "traversal ref" with
    | .error message => (db, .error message)
    | .ok given =>
      let publicRef := if given ≠ "" ∧ (db.evidenceOf ids given).isSome then "" else given
      match publicRefOrMint db publicRef randomInt with
      | .error message => (db, .error message)
      | .ok (db, publicRef) =>
        let reserved := if differs (db.traversalOf ids publicRef) source args.selector then
            (publicRefOrMint db "" randomInt')
          else (reserveIfFree db publicRef).map fun db => (db, publicRef)
        match reserved with
        | .error message => (db, .error message)
        | .ok (db, publicRef) =>
          let row := capabilityOf sha256 ids publicRef source { args with viewText := none } now
          let db := { db with traversals := insertCapability db.traversals row }
          (db, .ok (db.traversalOf ids publicRef))

/-- `registerEvidence`. -/
def CapabilityDb.registerEvidence (db : CapabilityDb) (ids : HashRefIds) (args : CapabilityArgs)
    (randomInt : ℕ → ℕ → ℕ → Fin 36) (now : ℤ) :
    CapabilityDb × Except String (Option CapabilityRow) :=
  match normalizedRef args.sourceRef "evidence source ref" with
  | .error message => (db, .error message)
  | .ok source =>
    match givenRef args.ref "evidence ref" with
    | .error message => (db, .error message)
    | .ok given =>
      let existing := if given = "" then none else db.evidenceOf ids given
      let publicRef := if differs existing source args.selector then "" else given
      match publicRefOrMint db publicRef randomInt with
      | .error message => (db, .error message)
      | .ok (db, publicRef) =>
        match reserveIfFree db publicRef with
        | .error message => (db, .error message)
        | .ok db =>
          let row := capabilityOf sha256 ids publicRef source args now
          let db := { db with evidence := insertCapability db.evidence row }
          (db, .ok (db.evidenceOf ids publicRef))

/-- The call of `registerEvidence` that `promoteTraversal` makes. -/
def CapabilityDb.promoted (db : CapabilityDb) (ids : HashRefIds) (ref : String)
    (args : CapabilityArgs) : Option CapabilityArgs :=
  (db.traversalOf ids ref).map fun traversal =>
    { ref := some traversal.ref
      sourceRef := traversal.sourceRef
      selector := args.selector.or traversal.selectorJson
      sourceContentHash :=
        (args.sourceContentHash.filter (· != "")).or traversal.sourceContentHash
      viewText := args.viewText }

/-- `promoteTraversal`. -/
def CapabilityDb.promoteTraversal (db : CapabilityDb) (ids : HashRefIds) (ref : String)
    (args : CapabilityArgs) (randomInt : ℕ → ℕ → ℕ → Fin 36) (now : ℤ) :
    CapabilityDb × Except String (Option CapabilityRow) :=
  match db.promoted ids ref args with
  | some args => db.registerEvidence sha256 ids args randomInt now
  | none => (db, .ok none)

/-! ## 4. Calls -/

/-- A call of a store that was built with a context. -/
inductive CapabilityCall
  | issueTraversal (args : CapabilityArgs) (randomInt randomInt' : ℕ → ℕ → ℕ → Fin 36)
  | registerEvidence (args : CapabilityArgs) (randomInt : ℕ → ℕ → ℕ → Fin 36)
  | promoteTraversal (ref : String) (args : CapabilityArgs) (randomInt : ℕ → ℕ → ℕ → Fin 36)
  | evidence (ref : String)
  | traversal (ref : String)

structure CapabilityOp where
  context : HashRefIds
  call : CapabilityCall
  now : ℤ := 0

/-- The ids the store keeps of its context. -/
def CapabilityOp.ids (op : CapabilityOp) : HashRefIds := normalizedIds op.context

/-- The database after a call, and the answer; the constructor wants a scope. -/
def capabilityCall (db : CapabilityDb) (op : CapabilityOp) :
    CapabilityDb × Except String (Option CapabilityRow) :=
  if scopeKey op.ids = "" then (db, .error "HashRefCapabilityStore requires a hash-ref scope")
  else match op.call with
    | .issueTraversal args randomInt randomInt' =>
      db.issueTraversal sha256 op.ids args randomInt randomInt' op.now
    | .registerEvidence args randomInt => db.registerEvidence sha256 op.ids args randomInt op.now
    | .promoteTraversal ref args randomInt =>
      db.promoteTraversal sha256 op.ids ref args randomInt op.now
    | .evidence ref => (db, .ok (db.evidenceOf op.ids ref))
    | .traversal ref => (db, .ok (db.traversalOf op.ids ref))

def capabilityStep (db : CapabilityDb) (op : CapabilityOp) : CapabilityDb :=
  (capabilityCall sha256 db op).1

end Store

end PosseClient
