/-
# Live buffers

`buffer.js`: the unsaved buffers of an editor, by session and file, in memory and in one file each
on disk.  `buffer.push` checks a new text against the buffer the key holds, parses it, and then
stores it; the parse is an `await`, so other calls run between the checks and the write.
`buffer.checkpoint` writes a buffer through or clears it.

* One repository; every call has loaded its persisted buffers before anything else.
* A push is two steps, `pushStart` up to the `await` and `pushWrite` after it.  What the parser
  says, the time, and whether the file could be written are arguments of the second.
* `sha256` is a parameter.
-/
import PosseClient.Lib.JsText
import PosseClient.Lib.KeyedMap

namespace PosseClient

open Table

/-! ## 1. Paths -/

/-- `replace(/^(?:\.\/+)+/, "")`; each round takes one `./` with the slashes after it. -/
def stripDotSlashes : ℕ → List Char → List Char
  | 0, cs => cs
  | fuel + 1, cs =>
    match cs with
    | '.' :: '/' :: rest => stripDotSlashes fuel (rest.dropWhile (· = '/'))
    | _ => cs

/-- `normalizeRepoPath`; what cannot be made canonical becomes the empty string. -/
def normalizeRepoPath (value : String) : String :=
  let slashed := (trim value).toList.map (fun c => if c = '\\' then '/' else c)
  let relative := stripDotSlashes slashed.length slashed
  let stripped := dropEndWhile (· = '/') (collapseSlashes relative)
  let segments := stripped.splitOn '/'
  let drive := (stripped.headD '/').isAlpha ∧ (stripped.drop 1).take 2 = [':', '/']
  if relative.head? = some '/' ∨ stripped = [] ∨ ['.'] ∈ segments ∨ ['.', '.'] ∈ segments ∨ drive
  then ""
  else String.ofList stripped

def isCanonicalRepoPath (value : String) : Bool :=
  value == normalizeRepoPath value && value != ""

/-! ## 2. Buffers -/

def maxBufferBytes : ℕ := 5 * 1024 * 1024
def maxDraftFiles : ℕ := 200
def defaultSession : String := "default"

/-- `normalizeSession`. -/
def normalizeSession (sessionId : Option String) : String :=
  let s := trim (sessionId.getD "")
  if s = "" then defaultSession else s

/-- `normalizeEventType`. -/
def normalizeEventType (value : Option String) : String :=
  let text := trim (value.getD "change")
  if text ∈ ["open", "change", "save", "close", "checkpoint"] then text else "change"

/-- `normalizeLanguage`. -/
def normalizeLanguage (value : Option String) : Option String :=
  let text := trim (value.getD "")
  if text = "" then none else some (String.ofList (text.toList.take 40))

/-- The session and the file of a buffer. -/
structure BufferKey where
  sessionId : String
  filePath : String
deriving DecidableEq, Repr

structure OverlayEntry where
  filePath : String
  sessionId : String
  content : String
  contentHash : String
  byteLength : ℕ
  version : Option ℚ
  updatedAt : String
  parsed : Bool
  symbolCount : ℕ
  parseAttempted : Bool
  eventType : String
  language : Option String
  dirty : Bool
deriving DecidableEq

def OverlayEntry.key (entry : OverlayEntry) : BufferKey := ⟨entry.sessionId, entry.filePath⟩

/-- The file of a buffer. -/
structure PersistedBuffer where
  schemaVersion : ℕ
  filePath : String
  sessionId : String
  content : String
  contentHash : String
  version : Option ℚ
  updatedAt : String
  eventType : String
  language : Option String
  dirty : Bool
deriving DecidableEq

def PersistedBuffer.key (file : PersistedBuffer) : BufferKey := ⟨file.sessionId, file.filePath⟩

def bufferSchemaVersion : ℕ := 1

/-- What `persistEntry` writes. -/
def OverlayEntry.persisted (entry : OverlayEntry) : PersistedBuffer :=
  { schemaVersion := bufferSchemaVersion
    filePath := entry.filePath
    sessionId := entry.sessionId
    content := entry.content
    contentHash := entry.contentHash
    version := entry.version
    updatedAt := entry.updatedAt
    eventType := entry.eventType
    language := entry.language
    dirty := entry.dirty }

@[simp] theorem OverlayEntry.persisted_key (entry : OverlayEntry) :
    entry.persisted.key = entry.key := rfl

/-- `makePersistedEntry`. -/
def PersistedBuffer.entry (sha256 : String → String) (file : PersistedBuffer) : OverlayEntry :=
  { filePath := file.filePath
    sessionId := normalizeSession (some file.sessionId)
    content := file.content
    contentHash := sha256 file.content
    byteLength := file.content.utf8ByteSize
    version := file.version
    updatedAt := file.updatedAt
    parsed := false
    symbolCount := 0
    parseAttempted := false
    eventType := normalizeEventType (some file.eventType)
    language := normalizeLanguage file.language
    dirty := file.dirty }

/-- The checks of `loadPersistedBuffers` on one file. -/
def PersistedBuffer.isAccepted (sha256 : String → String) (file : PersistedBuffer) : Bool :=
  file.schemaVersion == bufferSchemaVersion && isCanonicalRepoPath file.filePath &&
    decide (file.content.utf8ByteSize ≤ maxBufferBytes) &&
    (file.contentHash == "" || file.contentHash == sha256 file.content)

/-- `loadPersistedBuffers`: the files that pass the checks, in the order of the directory. -/
def loadPersistedBuffers (sha256 : String → String) (disk : List PersistedBuffer) :
    List OverlayEntry :=
  disk.foldl (fun buffers file =>
    if file.isAccepted sha256 then KeyedMap.put OverlayEntry.key (file.entry sha256) buffers
    else buffers) []

/-! ## 3. A push -/

structure BufferPushParams where
  filePath : String
  content : String
  sessionId : Option String := none
  version : Option ℚ := none
  eventType : Option String := none
  language : Option String := none
  dirty : Option Bool := none
deriving DecidableEq

def BufferPushParams.key (params : BufferPushParams) : BufferKey :=
  ⟨normalizeSession params.sessionId, params.filePath⟩

/-- The error codes of a push. -/
inductive BufferPushError
  | invalidPath | sizeExceeded
  | staleBufferVersion (incoming current : ℚ)
  | bufferVersionConflict (version : ℚ)
  | draftLimitExceeded
  | persistFailed
deriving DecidableEq

/-- What the parser says about a text. -/
structure BufferParse where
  parsed : Bool
  symbolCount : ℕ
  language : Option String
deriving DecidableEq

/-- A push that waits for the parser: its text and the entry it found. -/
structure PendingPush where
  params : BufferPushParams
  existing : Option OverlayEntry
deriving DecidableEq

/-- The two version checks of a push, against the entry it found. -/
def checkVersions (sha256 : String → String) (params : BufferPushParams)
    (existing : Option OverlayEntry) : Except BufferPushError Unit :=
  match existing, params.version with
  | some entry, some incoming =>
    match entry.version with
    | some current =>
      if incoming < current then .error (.staleBufferVersion incoming current)
      else if incoming = current ∧ sha256 params.content ≠ entry.contentHash then
        .error (.bufferVersionConflict incoming)
      else .ok ()
    | none => .ok ()
  | _, _ => .ok ()

/-- `bufferPush` up to its `await`. -/
def pushStart (sha256 : String → String) (buffers : List OverlayEntry)
    (params : BufferPushParams) : Except BufferPushError PendingPush :=
  if isCanonicalRepoPath params.filePath = false then .error .invalidPath
  else if maxBufferBytes < params.content.utf8ByteSize then .error .sizeExceeded
  else
    let existing := lookup OverlayEntry.key params.key buffers
    match checkVersions sha256 params existing with
    | .error e => .error e
    | .ok _ =>
      if existing.isNone ∧ maxDraftFiles ≤ buffers.length then .error .draftLimitExceeded
      else .ok ⟨params, existing⟩

/-- `makeEntry`. -/
def makeEntry (sha256 : String → String) (params : BufferPushParams) (parse : BufferParse)
    (updatedAt : String) : OverlayEntry :=
  { filePath := params.filePath
    sessionId := normalizeSession params.sessionId
    content := params.content
    contentHash := sha256 params.content
    byteLength := params.content.utf8ByteSize
    version := params.version
    updatedAt := updatedAt
    parsed := parse.parsed
    symbolCount := parse.symbolCount
    parseAttempted := true
    eventType := normalizeEventType params.eventType
    language := (normalizeLanguage params.language).or parse.language
    dirty := params.dirty.getD (normalizeEventType params.eventType != "save") }

@[simp] theorem makeEntry_key (sha256 : String → String) (params : BufferPushParams)
    (parse : BufferParse) (updatedAt : String) :
    (makeEntry sha256 params parse updatedAt).key = params.key := rfl

/-- The buffers in memory and on disk. -/
structure BufferStore where
  buffers : List OverlayEntry
  disk : List PersistedBuffer
deriving DecidableEq

def BufferStore.get (store : BufferStore) (k : BufferKey) : Option OverlayEntry :=
  lookup OverlayEntry.key k store.buffers

def BufferStore.file (store : BufferStore) (k : BufferKey) : Option PersistedBuffer :=
  lookup PersistedBuffer.key k store.disk

/-- `persistEntry`, where the file could be written. -/
def BufferStore.persistEntry (store : BufferStore) (entry : OverlayEntry) : BufferStore :=
  { store with disk := KeyedMap.put PersistedBuffer.key entry.persisted store.disk }

/-- `BUFFERS.set`. -/
def BufferStore.set (store : BufferStore) (entry : OverlayEntry) : BufferStore :=
  { store with buffers := KeyedMap.put OverlayEntry.key entry store.buffers }

/-- `BUFFERS.delete`. -/
def BufferStore.delete (store : BufferStore) (k : BufferKey) : BufferStore :=
  { store with buffers := KeyedMap.remove OverlayEntry.key k store.buffers }

/-- `removePersistedEntry`. -/
def BufferStore.removePersistedEntry (store : BufferStore) (k : BufferKey) : BufferStore :=
  { store with disk := KeyedMap.remove PersistedBuffer.key k store.disk }

/-- The write step of a push whose file cannot be written: the new entry, then what it found. -/
def BufferStore.rollback (store : BufferStore) (entry : OverlayEntry)
    (existing : Option OverlayEntry) : BufferStore :=
  match existing with
  | some found => (store.set entry).set found
  | none => (store.set entry).delete entry.key

/-- `bufferPush` from its `await` on: the store and the entry that is acknowledged. -/
def pushWrite (sha256 : String → String) (store : BufferStore) (push : PendingPush)
    (parse : BufferParse) (updatedAt : String) (canPersist : Bool) :
    BufferStore × Except BufferPushError OverlayEntry :=
  let entry := makeEntry sha256 push.params parse updatedAt
  if canPersist then ((store.set entry).persistEntry entry, .ok entry)
  else (store.rollback entry push.existing, .error .persistFailed)

/-! ## 4. A checkpoint -/

structure BufferCheckpointParams where
  filePath : String
  sessionId : Option String := none
  writeToDisk : Bool := false
  clear : Bool := false
deriving DecidableEq

def BufferCheckpointParams.key (params : BufferCheckpointParams) : BufferKey :=
  ⟨normalizeSession params.sessionId, params.filePath⟩

/-- Whether a checkpoint clears the buffer; `diskHash` is the hash of the worktree's file, before a
write-through. -/
def BufferCheckpointParams.shouldClear (params : BufferCheckpointParams) (entry : OverlayEntry)
    (diskHash : Option String) : Bool :=
  diskHash == some entry.contentHash || params.clear || params.writeToDisk

/-- `bufferCheckpoint`, as far as it changes the buffers. -/
def bufferCheckpoint (store : BufferStore) (params : BufferCheckpointParams)
    (diskHash : Option String) : BufferStore :=
  if !isCanonicalRepoPath params.filePath then store else
  match store.get params.key with
  | none => store
  | some entry =>
    if params.shouldClear entry diskHash then
      (store.delete params.key).removePersistedEntry params.key
    else store

/-! ## 5. Interleavings -/

/-- What a failed push saw of its key around its write step. -/
structure FailedPush where
  before : Option OverlayEntry × Option PersistedBuffer
  after : Option OverlayEntry × Option PersistedBuffer
deriving DecidableEq

/-- The store, the pushes that wait for the parser, and what was answered: the acknowledged pushes
of buffers that are live, those of buffers a checkpoint has cleared, and the failed pushes. -/
structure BufferSystem where
  store : BufferStore
  pushes : ℕ → Option PendingPush := fun _ => none
  acknowledged : List OverlayEntry := []
  retired : List OverlayEntry := []
  failed : List FailedPush := []

inductive BufferOp
  | start (call : ℕ) (params : BufferPushParams)
  | resume (call : ℕ) (parse : BufferParse) (updatedAt : String) (canPersist : Bool)
  | checkpoint (params : BufferCheckpointParams) (diskHash : Option String)
deriving DecidableEq

/-- One step: a push up to its `await`, a push from there on, or a checkpoint.  A call runs once. -/
def bufferStep (sha256 : String → String) (s : BufferSystem) : BufferOp → BufferSystem
  | .start call params =>
    match s.pushes call, pushStart sha256 s.store.buffers params with
    | none, .ok push => { s with pushes := Function.update s.pushes call (some push) }
    | _, _ => s
  | .resume call parse updatedAt canPersist =>
    match s.pushes call with
    | none => s
    | some push =>
      let k := push.params.key
      let (store, reply) := pushWrite sha256 s.store push parse updatedAt canPersist
      let s' := { s with store := store, pushes := Function.update s.pushes call none }
      match reply with
      | .ok entry => { s' with acknowledged := s.acknowledged ++ [entry] }
      | .error _ =>
        { s' with
          failed := s.failed ++ [⟨(s.store.get k, s.store.file k), (store.get k, store.file k)⟩] }
  | .checkpoint params diskHash =>
    let store := bufferCheckpoint s.store params diskHash
    if (s.store.get params.key).isSome ∧ (store.get params.key).isNone then
      -- the buffer is cleared: what was acknowledged for it is past
      { s with
        store := store
        acknowledged := s.acknowledged.filter (fun e => decide (e.key ≠ params.key))
        retired := s.retired ++ s.acknowledged.filter (fun e => decide (e.key = params.key)) }
    else { s with store := store }

/-- A process that has loaded the persisted buffers and run no call yet. -/
def BufferSystem.loaded (sha256 : String → String) (disk : List PersistedBuffer) : BufferSystem :=
  { store := ⟨loadPersistedBuffers sha256 disk, disk⟩ }

end PosseClient
