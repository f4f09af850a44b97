/-
# Ordered document intake

`OrderedDocumentIntake.js`: the join of the tree-sitter and the SCIP side of intake, which readers
take in the order of registration.

* A `documentSource` is its path and its hash; a document of both sides has one hash.
* `answers` is read by no function: what the readers got, a document with what the intake knew then,
  or the end.  `processedDocuments` counts the calls of `markProcessed` that went through.
* `languageTag` is `languageTagForExtension` of a path's extension, `toLowerCase` the method of
  strings; the promises a producer waits for are left out.
-/
import PosseClient.Lib.JsText
import PosseClient.Lib.Table
import PosseClient.Lib.Runs

namespace PosseClient

/-! ## 1. Records -/

/-- A record; `scipHashes` are the keys of `scipByHash`. -/
structure IntakeRecord where
  ordinal : ℕ
  repoRelPath : String
  treeSitter : Option String := none
  scipHashes : List String := []
  scipTerminal : Bool := false
  skipped : Bool := false
  deriving DecidableEq, Repr

/-- A document as a reader gets it; `scipHashes` and `scipAbsent` say what the intake knew of the SCIP
side then. -/
structure DeliveredDocument where
  ordinal : ℕ
  repoRelPath : String
  contentHash : String
  treeSitter : Option String
  scipHashes : List String
  scipAbsent : Bool
  deriving DecidableEq, Repr

/-- What an artifact covers. -/
structure ScipCoverage where
  documents : List (String × String) := []
  sourceLanguages : List String := []
  scopePaths : List String := []
  deriving DecidableEq, Repr

structure Intake where
  records : List IntakeRecord := []
  earlyScip : List (String × String) := []
  earlyCoverage : List ScipCoverage := []
  readers : ℕ := 0
  registered : Bool := false
  treeSitterFinished : Bool := false
  scipFinished : Bool := false
  cursor : ℕ := 0
  processed : ℕ := 0
  closed : Bool := false
  answers : List (Option DeliveredDocument) := []
  processedDocuments : ℕ := 0
  deriving DecidableEq, Repr

/-- The documents the readers got. -/
def Intake.delivered (s : Intake) : List DeliveredDocument := s.answers.filterMap id

/-- `#recordReady`. -/
def IntakeRecord.ready (record : IntakeRecord) (scipFinished : Bool) : Bool :=
  match record.treeSitter with
  | some hash => record.scipHashes.contains hash || record.scipTerminal || scipFinished
  | none => false

/-- The value a reader gets. -/
def IntakeRecord.document (record : IntakeRecord) (scipFinished : Bool) : DeliveredDocument where
  ordinal := record.ordinal
  repoRelPath := record.repoRelPath
  contentHash := record.treeSitter.getD ""
  treeSitter := record.treeSitter
  scipHashes := record.scipHashes
  scipAbsent := record.scipTerminal || scipFinished

/-- `map.set` for the keys of a map. -/
def addKey (keys : List String) (key : String) : List String :=
  if key ∈ keys then keys else keys ++ [key]

/-- `#byPath.get`. -/
def Intake.byPath (s : Intake) (path : String) : Option IntakeRecord :=
  Table.lookup (·.repoRelPath) path s.records

/-- The record of a path changes. -/
def Intake.setRecord (s : Intake) (path : String) (f : IntakeRecord → IntakeRecord) : Intake :=
  { s with records := Table.updateWhere (fun r => decide (r.repoRelPath = path)) f s.records }

/-! ## 2. The pump -/

/-- `#advanceProcessedPastSkips`. -/
def Intake.advanceProcessedPastSkips (s : Intake) : Intake :=
  { s with processed :=
      s.processed + ((s.records.drop s.processed).takeWhile (·.skipped)).length }

/-- The pump goes past a record that is skipped. -/
def Intake.passSkipped (s : Intake) (record : IntakeRecord) : Intake :=
  let s := { s with cursor := s.cursor + 1 }
  if record.ordinal = s.processed then
    { s with processed := s.processed + 1 }.advanceProcessedPastSkips
  else s

/-- The pump gives a record to the first reader. -/
def Intake.deliver (s : Intake) (record : IntakeRecord) : Intake :=
  { s with
    readers := s.readers - 1
    answers := s.answers ++ [some (record.document s.scipFinished)]
    cursor := s.cursor + 1 }

/-- The loop of `#pump`, over the records from the cursor on. -/
def pumpLoop : List IntakeRecord → Intake → Intake
  | [], s => s
  | record :: rest, s =>
    if record.skipped then pumpLoop rest (s.passSkipped record)
    else if !record.ready s.scipFinished || s.readers == 0 then s
    else pumpLoop rest (s.deliver record)

/-- The end of `#pump`. -/
def Intake.closeIfDone (s : Intake) : Intake :=
  if s.cursor < s.records.length then s
  else if !s.treeSitterFinished || !s.scipFinished then s
  else { s with closed := true, answers := s.answers ++ List.replicate s.readers none, readers := 0 }

/-- `#pump`. -/
def Intake.pump (s : Intake) : Intake :=
  if s.closed || !s.registered then s
  else (pumpLoop (s.records.drop s.cursor) s).closeIfDone

/-! ## 3. Calls -/

/-- The paths of the records to register: each once, none empty. -/
def distinctPaths (seen : List String) : List String → List String
  | [] => []
  | path :: rest =>
    if path = "" ∨ path ∈ seen then distinctPaths seen rest
    else path :: distinctPaths (path :: seen) rest

/-- The records of `registerPaths`. -/
def newRecords (earlyScip : List (String × String)) (paths : List String) : List IntakeRecord :=
  (distinctPaths [] paths).mapIdx fun ordinal path =>
    { ordinal := ordinal, repoRelPath := path
      scipHashes := (earlyScip.filter (·.1 = path)).map (·.2) }

section Calls

variable (languageTag : String → Option String) (toLowerCase : String → String)

/-- A record that a coverage leaves out becomes terminal. -/
def IntakeRecord.applyCoverage (coverage : ScipCoverage) (record : IntakeRecord) : IntakeRecord :=
  let hasScope := !coverage.scopePaths.isEmpty
  if hasScope && !coverage.scopePaths.contains record.repoRelPath then record
  else if !coverage.documents.any (·.1 == record.repoRelPath) &&
      (hasScope || (languageTag record.repoRelPath).any (coverage.sourceLanguages.contains ·)) then
    { record with scipTerminal := true }
  else record

/-- `#applyScipCoverage`, before it pumps. -/
def Intake.noteCoverage (s : Intake) (coverage : ScipCoverage) : Intake :=
  { s with records := s.records.map (IntakeRecord.applyCoverage languageTag coverage) }

/-- `#applyScipCoverage`. -/
def Intake.applyScipCoverage (s : Intake) (coverage : ScipCoverage) : Intake :=
  (s.noteCoverage languageTag coverage).pump

/-- `registerPaths`; a second call throws. -/
def Intake.registerPaths (s : Intake) (paths : List String) : Intake :=
  if s.registered then s
  else
    let coverages := s.earlyCoverage
    let s := { s with
      registered := true, records := newRecords s.earlyScip paths, earlyScip := []
      earlyCoverage := [] }
    (coverages.foldl (Intake.applyScipCoverage languageTag) s).pump

/-- `markTreeSitter`, before it pumps; without a hash it throws. -/
def Intake.noteTreeSitter (s : Intake) (path hash : String) : Intake :=
  s.setRecord path fun record =>
    if record.skipped ∨ hash = "" then record
    else { record with
      treeSitter := some hash
      skipped := s.scipFinished && !record.scipHashes.isEmpty && !record.scipHashes.contains hash }

/-- `markTreeSitter`. -/
def Intake.markTreeSitter (s : Intake) (path hash : String) : Intake :=
  match s.byPath path with
  | some record => if record.skipped ∨ hash = "" then s else (s.noteTreeSitter path hash).pump
  | none => s

/-- `markScip`, before it pumps. -/
def Intake.noteScip (s : Intake) (path hash : String) : Intake :=
  s.setRecord path fun record =>
    if record.skipped then record
    else { record with scipHashes := addKey record.scipHashes hash }

/-- `markScip`. -/
def Intake.markScip (s : Intake) (path hash : String) : Intake :=
  if path = "" ∨ hash = "" then s
  else match s.byPath path with
    | some record => if record.skipped then s else (s.noteScip path hash).pump
    | none =>
      { s with earlyScip :=
          if (path, hash) ∈ s.earlyScip then s.earlyScip else s.earlyScip ++ [(path, hash)] }

/-- The coverage that `declareScipCoverage` makes of its argument. -/
def normalizeCoverage (coverage : ScipCoverage) : ScipCoverage where
  documents := coverage.documents.filter fun document => document.1 != "" && document.2 != ""
  sourceLanguages :=
    (coverage.sourceLanguages.map fun language => toLowerCase (trim language)).filter (· != "")
  scopePaths := coverage.scopePaths.filter (· != "")

/-- `declareScipCoverage`. -/
def Intake.declareScipCoverage (s : Intake) (coverage : ScipCoverage) : Intake :=
  let normalized := normalizeCoverage toLowerCase coverage
  if !s.registered then { s with earlyCoverage := s.earlyCoverage ++ [normalized] }
  else s.applyScipCoverage languageTag normalized

/-- `markProcessed`, `none` where it throws. -/
def Intake.markProcessed (s : Intake) (path : String) : Option Intake :=
  match s.byPath path with
  | some record =>
    if record.ordinal ≠ s.processed then none
    else some { s with
      processed := s.processed + 1
      processedDocuments := s.processedDocuments + 1 }.advanceProcessedPastSkips
  | none => none

/-- `skip`, before it pumps. -/
def Intake.noteSkip (s : Intake) (path : String) : Intake :=
  s.setRecord path fun record =>
    if record.treeSitter.isSome then record else { record with skipped := true }

/-- `skip`. -/
def Intake.skip (s : Intake) (path : String) : Intake :=
  match s.byPath path with
  | some record => if record.treeSitter.isSome then s else (s.noteSkip path).pump
  | none => s

/-- `finishTreeSitter`, before it pumps. -/
def Intake.noteTreeSitterFinished (s : Intake) : Intake :=
  let s := if s.registered then s else s.registerPaths languageTag []
  { s with
    treeSitterFinished := true
    records := s.records.map fun record =>
      if record.treeSitter = none then { record with skipped := true } else record }

/-- A record has commits of both sides, and none of one hash. -/
def IntakeRecord.mismatched (record : IntakeRecord) : Bool :=
  match record.treeSitter with
  | some hash => !record.scipHashes.isEmpty && !record.scipHashes.contains hash
  | none => false

/-- `finishScip`, before it pumps. -/
def Intake.noteScipFinished (s : Intake) : Intake :=
  { s with
    scipFinished := true
    records := s.records.map fun record =>
      if record.mismatched then { record with skipped := true } else record }

/-- `next`, before it pumps. -/
def Intake.noteReader (s : Intake) : Intake := { s with readers := s.readers + 1 }

/-- `next`. -/
def Intake.next (s : Intake) : Intake :=
  if s.closed then { s with answers := s.answers ++ [none] } else s.noteReader.pump

/-- A call. -/
inductive IntakeOp
  | registerPaths (paths : List String)
  | markTreeSitter (path hash : String)
  | markScip (path hash : String)
  | declareScipCoverage (coverage : ScipCoverage)
  | skip (path : String)
  | finishTreeSitter
  | finishScip
  | next
  | markProcessed (path : String)
  deriving DecidableEq, Repr

/-- The intake after a call; one that throws changes nothing. -/
def intakeStep (s : Intake) : IntakeOp → Intake
  | .registerPaths paths => s.registerPaths languageTag paths
  | .markTreeSitter path hash => s.markTreeSitter path hash
  | .markScip path hash => s.markScip path hash
  | .declareScipCoverage coverage => s.declareScipCoverage languageTag toLowerCase coverage
  | .skip path => s.skip path
  | .finishTreeSitter => (s.noteTreeSitterFinished languageTag).pump
  | .finishScip => s.noteScipFinished.pump
  | .next => s.next
  | .markProcessed path => (s.markProcessed path).getD s

end Calls

end PosseClient
